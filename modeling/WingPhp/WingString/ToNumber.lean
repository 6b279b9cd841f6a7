import WingPhp.WingString.Readers
import WingPhp.Lib.Decimal

/-!
# `toNumber`

Over the rationals: `double` and `pow` are exact here.  The first loop goes over digits, `-` and `.`
until a mark (`-` or `.`) stands before a mark, and counts the digits in front of the first `.`; the
second adds up what the first went over, every character but `.` taken as its code less 48.

`toNumber_right_iff` says for which strings that is the value of the numeral in front.
-/

namespace WingPhp.Strings

open Memory Decimal

/-- From `'0'` to `'9'`. -/
def isDigit (c : UInt8) : Bool := 48 ≤ c.toNat && c.toNat ≤ 57

/-- `'-'` or `'.'`. -/
def isMark (c : UInt8) : Bool := c.toNat = 45 || c.toNat = 46

/-- The look-ahead from a character: is it a mark before a mark?  The first argument is `len - (i + 1)`. -/
def lookAhead : Nat → UInt8 → List UInt8 → Except Fault Bool
  | 0, _, _ => .ok false
  | _ + 1, c, [] => if isMark c then .error .outside else .ok false
  | _ + 1, c, d :: _ => .ok (isMark c && isMark d)

/-- The first loop, from `numstr[i]` on: `i` and `maxmi` behind it.  The first argument is `len - i`. -/
def scanNumber : Nat → List UInt8 → Bool → Nat → Nat → Except Fault (Nat × Nat)
  | 0, _, _, i, maxmi => .ok (i, maxmi)
  | _ + 1, [], _, _, _ => .error .outside
  | left + 1, c :: rest, haspoint, i, maxmi =>
    if !isDigit c && !isMark c then .ok (i, maxmi)
    else do
      let stop ← lookAhead left c rest
      if stop then .ok (i, maxmi)
      else
        scanNumber left rest (haspoint || c = 46) (i + 1)
          (if isDigit c && !haspoint then maxmi + 1 else maxmi)

/-- The second loop; `minus` is `result -= `. -/
def addDigits (minus : Bool) : List UInt8 → Int → ℚ → ℚ
  | [], _, result => result
  | c :: rest, maxmi, result =>
    if c = 46 then addDigits minus rest maxmi result
    else
      let m := maxmi - 1
      let term := ((c.toNat : Int) - 48 : Int) * (10 : ℚ) ^ m
      addDigits minus rest (maxmi - 1) (if minus then result - term else result + term)

/-- What `toNumber` does with `numstr` and `len`. -/
def readNumber : Ptr UInt8 → Nat → Except Fault ℚ
  | none, len => if len = 0 then .ok 0 else .error .null
  | some numstr, len => do
    let (i, maxmi) ← scanNumber len numstr false 0 0
    if i = 0 then .ok 0
    else if numstr.head? = some 45 then .ok (addDigits true (numstr.take i).tail maxmi 0)
    else .ok (addDigits false (numstr.take i) maxmi 0)

/-- `toNumber()`. -/
def WingString.toNumber (cp : CodePages) (s : WingString) : Except Fault ℚ :=
  match s.strType with
  | .unknown => .ok 0
  | .char => readNumber s.str s.length
  | .wchar => do
    let numstr ← wingStrWcharToChar cp s.str
    match numstr with
    | none => .ok 0
    | some mem => readNumber (some mem) s.length

/-! ## What it is for -/

/-- What a character is in a number. -/
def symOf (c : Nat) : Sym :=
  if h : 48 ≤ c ∧ c ≤ 57 then .digit ⟨c - 48, by omega⟩
  else if c = 45 then .minus
  else if c = 46 then .point
  else .other

def charSyms (t : List UInt8) : List Sym := t.map fun c => symOf c.toNat

def wcharSyms (t : List UInt16) : List Sym := t.map fun c => symOf c.toNat

/-- The characters of the string. -/
def WingString.symbols (s : WingString) : List Sym :=
  match s.strType with
  | .unknown => []
  | .char => charSyms ((s.str.getD []).take s.length)
  | .wchar => wcharSyms ((wide (s.str.getD [])).take s.length)

/-- The result is the value of the longest numeral in front. -/
def NumberRight (s : WingString) (r : Except Fault ℚ) : Prop := ∃ q, r = .ok q ∧ IsReading s.symbols q

/-- An OEM page is one of ASCII: the digits, `-` and `.` in front of a text stay what they are. -/
def CodePages.KeepsNumerals (cp : CodePages) : Prop :=
  ∀ t u, cp.wideToOem t = some u → (wcharSyms t).takeWhile (· ≠ .other) <+: charSyms u

/-- The characters as the OEM page has them, where the string is converted. -/
def WingString.oemSymbols (cp : CodePages) (s : WingString) : List Sym :=
  match s.strType with
  | .unknown => []
  | .char => s.symbols
  | .wchar => (charSyms ((cp.wideToOem (text (wide (s.str.getD [])))).getD [] ++ [0])).take s.length

/-- The digits, `-` and `.` in front, up to a mark before a mark. -/
def singleMarks : List Sym → List Sym
  | [] => []
  | .other :: _ => []
  | .digit d :: l => .digit d :: singleMarks l
  | s :: l => if l.head? = some .minus ∨ l.head? = some .point then [] else s :: singleMarks l

/-- What is left of them behind a numeral in front. -/
def leftOver (n : Numeral) (b : List Sym) : List Sym := (unsigned (singleMarks b)).drop n.body.length

/-- The digits in front of the first point. -/
def wholeDigits : List Sym → Nat
  | [] => 0
  | .digit _ :: l => wholeDigits l + 1
  | .point :: _ => 0
  | _ :: l => wholeDigits l

/-- A numeral in front is read right: it is not `-.digits`, behind it there are zeros and points only,
and no zeros there move its digits up. -/
structure ReadsRight (n : Numeral) (b : List Sym) : Prop where
  sign : n.neg = true → n.whole = [] → ∀ d ∈ n.fracDigits, d = 0
  zeros : ∀ x ∈ leftOver n b, x = .digit 0 ∨ x = .point
  unmoved : n.frac ≠ none ∨ wholeDigits (leftOver n b) = 0 ∨ ∀ d ∈ n.whole, d = 0

instance (n : Numeral) (b : List Sym) : Decidable (ReadsRight n b) :=
  decidable_of_iff ((n.neg = true → n.whole = [] → ∀ d ∈ n.fracDigits, d = 0) ∧
    (∀ x ∈ leftOver n b, x = .digit 0 ∨ x = .point) ∧
    (n.frac ≠ none ∨ wholeDigits (leftOver n b) = 0 ∨ ∀ d ∈ n.whole, d = 0))
    ⟨fun ⟨h1, h2, h3⟩ => ⟨h1, h2, h3⟩, fun ⟨h1, h2, h3⟩ => ⟨h1, h2, h3⟩⟩

/-! ## Characters -/

theorem symOf_digit {c : UInt8} (h : isDigit c = true) :
    ∃ d : Fin 10, symOf c.toNat = .digit d ∧ c.toNat = 48 + d.val := by
  simp only [isDigit, Bool.and_eq_true, decide_eq_true_eq] at h
  refine ⟨⟨c.toNat - 48, by omega⟩, dif_pos h, ?_⟩
  show c.toNat = 48 + (c.toNat - 48)
  omega

theorem symOf_mark {c : UInt8} (h : isMark c = true) :
    c = 45 ∧ symOf c.toNat = .minus ∨ c = 46 ∧ symOf c.toNat = .point := by
  simp only [isMark, Bool.or_eq_true, decide_eq_true_eq] at h
  rcases h with h | h
  · exact .inl ⟨UInt8.toNat_inj.mp h, by rw [h]; rfl⟩
  · exact .inr ⟨UInt8.toNat_inj.mp h, by rw [h]; rfl⟩

theorem symOf_other {c : Nat} (hd : ¬ (48 ≤ c ∧ c ≤ 57)) (hm : ¬ (c = 45 ∨ c = 46)) : symOf c = .other := by
  rw [not_or] at hm
  rw [symOf, dif_neg hd, if_neg hm.1, if_neg hm.2]

theorem isMark_iff (c : UInt8) : isMark c = true ↔ symOf c.toNat = .minus ∨ symOf c.toNat = .point := by
  constructor
  · intro h
    rcases symOf_mark h with ⟨-, h⟩ | ⟨-, h⟩
    · exact .inl h
    · exact .inr h
  · intro h
    by_contra hm
    have hm' : ¬ (c.toNat = 45 ∨ c.toNat = 46) := by
      simpa only [isMark, Bool.or_eq_true, decide_eq_true_eq] using hm
    unfold symOf at h
    rw [not_or] at hm'
    split at h
    · rcases h with h | h <;> cases h
    · rw [if_neg hm'.1, if_neg hm'.2] at h
      rcases h with h | h <;> cases h

/-- The three kinds of characters. -/
theorem symOf_cases (c : UInt8) :
    (isDigit c = true ∧ isMark c = false) ∨ (isDigit c = false ∧ isMark c = true) ∨
      (isDigit c = false ∧ isMark c = false ∧ symOf c.toNat = .other) := by
  cases hd : isDigit c with
  | true =>
    refine .inl ⟨rfl, ?_⟩
    simp only [isDigit, Bool.and_eq_true, decide_eq_true_eq] at hd
    simp only [isMark, Bool.or_eq_false_iff, decide_eq_false_iff_not]
    omega
  | false =>
    cases hm : isMark c with
    | true => exact .inr (.inl ⟨rfl, rfl⟩)
    | false =>
      refine .inr (.inr ⟨rfl, rfl, symOf_other ?_ ?_⟩)
      · simpa [isDigit] using hd
      · simpa [isMark] using hm

/-! ## The first loop -/

theorem singleMarks_mark {s : Sym} (h : s = .minus ∨ s = .point) (l : List Sym) :
    singleMarks (s :: l) =
      if l.head? = some .minus ∨ l.head? = some .point then [] else s :: singleMarks l := by
  rcases h with rfl | rfl <;> rfl

theorem singleMarks_front (l : List Sym) : singleMarks l <+: l := by
  induction l with
  | nil => exact List.prefix_rfl
  | cons s l ih =>
    cases s with
    | other => exact List.nil_prefix
    | digit d => exact List.cons_prefix_cons.mpr ⟨rfl, ih⟩
    | minus =>
      rw [singleMarks_mark (.inl rfl)]
      split
      · exact List.nil_prefix
      · exact List.cons_prefix_cons.mpr ⟨rfl, ih⟩
    | point =>
      rw [singleMarks_mark (.inr rfl)]
      split
      · exact List.nil_prefix
      · exact List.cons_prefix_cons.mpr ⟨rfl, ih⟩

theorem other_not_mem_singleMarks (l : List Sym) : Sym.other ∉ singleMarks l := by
  induction l with
  | nil => exact List.not_mem_nil
  | cons s l ih =>
    cases s with
    | other => exact List.not_mem_nil
    | digit d =>
      intro h
      exact ih ((List.mem_cons.mp h).resolve_left (by simp))
    | minus =>
      rw [singleMarks_mark (.inl rfl)]
      split
      · exact List.not_mem_nil
      · exact fun h => ih ((List.mem_cons.mp h).resolve_left (by simp))
    | point =>
      rw [singleMarks_mark (.inr rfl)]
      split
      · exact List.not_mem_nil
      · exact fun h => ih ((List.mem_cons.mp h).resolve_left (by simp))

theorem lookAhead_eq {left : Nat} {rest : List UInt8} (h : left ≤ rest.length ∨ 0 ∈ rest) (c : UInt8) :
    lookAhead left c rest = .ok (isMark c && decide ((charSyms (rest.take left)).head? = some .minus ∨
      (charSyms (rest.take left)).head? = some .point)) := by
  cases left with
  | zero => simp [lookAhead, charSyms]
  | succ left =>
    cases rest with
    | nil =>
      rcases h with h | h
      · cases h
      · cases h
    | cons d rest =>
      have hmark : isMark d = decide (symOf d.toNat = .minus ∨ symOf d.toNat = .point) :=
        Bool.eq_iff_iff.mpr ((isMark_iff d).trans decide_eq_true_iff.symm)
      simp [lookAhead, charSyms, hmark]

/-- **The first loop.**  It goes over the single marks and digits, and counts the digits before a point. -/
theorem scanNumber_eq {numstr : List UInt8} {len : Nat} (h : len ≤ numstr.length ∨ 0 ∈ numstr)
    (haspoint : Bool) (i maxmi : Nat) :
    scanNumber len numstr haspoint i maxmi =
      .ok (i + (singleMarks (charSyms (numstr.take len))).length,
        maxmi + if haspoint then 0 else wholeDigits (singleMarks (charSyms (numstr.take len)))) := by
  induction len generalizing numstr haspoint i maxmi with
  | zero => cases haspoint <;> simp [scanNumber, charSyms, singleMarks, wholeDigits]
  | succ left ih =>
    cases numstr with
    | nil =>
      rcases h with h | h
      · cases h
      · cases h
    | cons c rest =>
      have hrest : c ≠ 0 → left ≤ rest.length ∨ 0 ∈ rest := by
        intro hc
        rcases h with h | h
        · exact .inl (Nat.le_of_succ_le_succ h)
        · exact .inr ((List.mem_cons.mp h).resolve_left fun e => hc e.symm)
      have hsyms : charSyms ((c :: rest).take (left + 1)) = symOf c.toNat :: charSyms (rest.take left) := rfl
      rw [hsyms]
      rcases symOf_cases c with ⟨hd, hm⟩ | ⟨hd, hm⟩ | ⟨hd, hm, hother⟩
      · obtain ⟨d, hsym, -⟩ := symOf_digit hd
        have hc : c ≠ 0 := by
          rintro rfl
          cases hd
        have hpoint : c ≠ 46 := by
          rintro rfl
          cases hd
        simp only [scanNumber, hd, hm, lookAhead_eq (hrest hc), ih (hrest hc), hsym, hpoint, singleMarks]
        cases haspoint with
        | true => simp [Nat.add_assoc, Nat.add_comm]
        | false => simp [wholeDigits, Nat.add_assoc, Nat.add_comm]
      · have hc : c ≠ 0 := by
          rintro rfl
          cases hm
        rw [singleMarks_mark ((isMark_iff c).mp hm)]
        simp only [scanNumber, hd, hm, lookAhead_eq (hrest hc), ih (hrest hc)]
        by_cases hstop : (charSyms (rest.take left)).head? = some .minus ∨
          (charSyms (rest.take left)).head? = some .point
        · simp [hstop, wholeDigits]
        · rcases symOf_mark hm with ⟨hval, hsym⟩ | ⟨hval, hsym⟩
          · rw [hsym]
            simp [hstop, hval, wholeDigits, Nat.add_assoc, Nat.add_comm]
          · rw [hsym]
            simp [hstop, hval, wholeDigits, Nat.add_assoc, Nat.add_comm]
      · simp [scanNumber, hd, hm, hother, singleMarks, wholeDigits]

/-! ## The second loop -/

/-- A character less 48; a point is passed over. -/
def weight : Sym → Option Int
  | .digit d => some d.val
  | .minus => some (-3)
  | .point => none
  | .other => none

def weights (l : List Sym) : List Int := l.filterMap weight

/-- What digits and marks add up to, the digits before the first point counted. -/
def total (l : List Sym) : ℚ := weigh ((wholeDigits l : Int) - 1) (weights l)

/-- **The second loop.** -/
theorem addDigits_eq (minus : Bool) {l : List UInt8} (h : .other ∉ charSyms l) (maxmi : Int) (result : ℚ) :
    addDigits minus l maxmi result =
      if minus then result - weigh (maxmi - 1) (weights (charSyms l))
      else result + weigh (maxmi - 1) (weights (charSyms l)) := by
  induction l generalizing maxmi result with
  | nil =>
    show result = if minus then result - 0 else result + 0
    rw [sub_zero, add_zero, ite_self]
  | cons c rest ih =>
    obtain ⟨hc, hrest⟩ := not_or.mp fun hmem => h (List.mem_cons.mpr hmem)
    rcases symOf_cases c with ⟨hd, hm⟩ | ⟨hd, hm⟩ | ⟨hd, hm, hother⟩
    · obtain ⟨d, hsym, hval⟩ := symOf_digit hd
      have hpoint : c ≠ 46 := by
        rintro rfl
        cases hd
      have hw : weights (charSyms (c :: rest)) = (d.val : Int) :: weights (charSyms rest) := by
        simp [weights, charSyms, hsym, weight]
      rw [addDigits, if_neg hpoint, ih hrest, hw, weigh, hval]
      cases minus <;> simp <;> ring
    · rcases symOf_mark hm with ⟨rfl, hsym⟩ | ⟨rfl, hsym⟩
      · have hw : weights (charSyms (45 :: rest)) = -3 :: weights (charSyms rest) := rfl
        rw [addDigits, if_neg (by decide), ih hrest, hw, weigh]
        cases minus <;> simp <;> ring
      · exact ih hrest maxmi result
    · exact absurd hother.symm hc

/-- What the two loops compute of the characters in front. -/
def scannedValue (b : List Sym) : ℚ :=
  if (singleMarks b).head? = some .minus then -total (unsigned (singleMarks b))
  else total (unsigned (singleMarks b))

theorem symOf_eq_minus {c : UInt8} : symOf c.toNat = .minus ↔ c = 45 := by
  constructor
  · intro h
    rcases symOf_mark ((isMark_iff c).mpr (.inl h)) with ⟨hc, -⟩ | ⟨-, hpoint⟩
    · exact hc
    · rw [hpoint] at h
      cases h
  · rintro rfl
    rfl

/-- **Both loops.** -/
theorem readNumber_eq {numstr : List UInt8} {len : Nat} (h : len ≤ numstr.length ∨ 0 ∈ numstr) :
    readNumber (some numstr) len = .ok (scannedValue (charSyms (numstr.take len))) := by
  have hfront := singleMarks_front (charSyms (numstr.take len))
  have hother := other_not_mem_singleMarks (charSyms (numstr.take len))
  have hlen := hfront.length_le
  simp only [readNumber, scanNumber_eq h, ok_bind, Nat.zero_add, Bool.false_eq_true, if_false, scannedValue]
  have hwent : charSyms (numstr.take (singleMarks (charSyms (numstr.take len))).length) =
      singleMarks (charSyms (numstr.take len)) := by
    rw [charSyms, List.length_map, List.length_take] at hlen
    have htake := List.prefix_iff_eq_take.mp hfront
    rw [charSyms, ← List.map_take, List.take_take, Nat.min_eq_left (by omega)] at htake
    exact htake.symm
  generalize singleMarks (charSyms (numstr.take len)) = went at hwent hother
  cases went with
  | nil => rfl
  | cons s went =>
    rw [if_neg (by simp)]
    cases numstr with
    | nil => cases hwent
    | cons c rest =>
      obtain ⟨hc, hrest⟩ := List.cons.inj hwent
      have hminus : (c :: rest).head? = some 45 ↔ (s :: went).head? = some .minus := by
        rw [List.head?_cons, List.head?_cons, Option.some.injEq, Option.some.injEq, ← hc]
        exact symOf_eq_minus.symm
      by_cases hs : s = .minus
      · subst hs
        have hhead : (Sym.minus :: went).head? = some .minus := rfl
        rw [if_pos (hminus.mpr hhead), if_pos hhead]
        have htail : .other ∉ charSyms (rest.take went.length) := by
          rw [show charSyms (rest.take went.length) = went from hrest]
          exact fun hmem => hother (List.mem_cons_of_mem _ hmem)
        show Except.ok (addDigits true (rest.take went.length) (wholeDigits went) 0) = .ok (-total went)
        rw [addDigits_eq true htail, show charSyms (rest.take went.length) = went from hrest, if_pos rfl, zero_sub,
          total]
      · have hs' : ¬ (s :: went).head? = some .minus := fun heq => hs (Option.some.inj heq)
        have hplain : unsigned (s :: went) = s :: went := by
          cases s with
          | minus => exact absurd rfl hs
          | digit d => rfl
          | point => rfl
          | other => rfl
        rw [if_neg (fun heq => hs' (hminus.mp heq)), if_neg hs', hplain]
        rw [addDigits_eq false (by rw [hwent]; exact hother), hwent, if_neg Bool.false_ne_true, zero_add, total]

/-! ## The numeral in front -/

theorem singleMarks_digits (ds : List (Fin 10)) (l : List Sym) :
    singleMarks (ds.map .digit ++ l) = ds.map .digit ++ singleMarks l := by
  induction ds with
  | nil => rfl
  | cons d ds ih => exact congrArg (Sym.digit d :: ·) ih

/-- Without a sign, a numeral in front is gone over, but for a point at its end before a mark. -/
theorem singleMarks_body (n : Numeral) (z : List Sym) :
    singleMarks (n.body ++ z) = n.body ++ singleMarks z ∨
      n.frac = some [] ∧ singleMarks (n.body ++ z) = n.whole.map .digit := by
  obtain ⟨neg, ds, fr⟩ := n
  cases fr with
  | none =>
    refine .inl ?_
    simp only [Numeral.body, Option.elim_none, List.append_nil, singleMarks_digits]
  | some f =>
    simp only [Numeral.body, Option.elim_some, List.append_assoc, List.cons_append, singleMarks_digits]
    rw [singleMarks_mark (.inr rfl), singleMarks_digits]
    cases f with
    | cons d f => exact .inl rfl
    | nil =>
      split
      · exact .inr ⟨rfl, List.append_nil _⟩
      · exact .inl rfl

theorem head?_body (n : Numeral) (l : List Sym) (h : n.body ≠ []) : (n.body ++ l).head? ≠ some .minus := by
  obtain ⟨neg, ds, fr⟩ := n
  cases ds with
  | cons d ds => simp [Numeral.body]
  | nil =>
    cases fr with
    | some f => simp [Numeral.body]
    | none => exact absurd rfl h

theorem unsigned_of_head? {l : List Sym} (h : l.head? ≠ some .minus) : unsigned l = l := by
  cases l with
  | nil => rfl
  | cons s l =>
    cases s with
    | minus => exact absurd rfl h
    | digit d => rfl
    | point => rfl
    | other => rfl

/-- `-.digits`: the sign stands before a mark, and nothing is gone over. -/
theorem singleMarks_bare {n : Numeral} (hneg : n.neg = true) (hwhole : n.whole = []) (hfrac : n.frac ≠ none)
    (z : List Sym) : singleMarks (n.spell ++ z) = [] := by
  obtain ⟨neg, ds, fr⟩ := n
  subst hneg hwhole
  cases fr with
  | none => exact absurd rfl hfrac
  | some f => rfl

theorem absValue_of_body_nil {n : Numeral} (h : n.body = []) : n.absValue = 0 := by
  obtain ⟨neg, ds, fr⟩ := n
  cases ds with
  | cons d ds => cases h
  | nil =>
    cases fr with
    | some f => cases h
    | none => simp [Numeral.absValue, Numeral.fracDigits, natValue]

/-- Behind the sign. -/
theorem leftOver_of_unsigned (n : Numeral) {l : List Sym} (z : List Sym)
    (h : unsigned (singleMarks l) = singleMarks (n.body ++ z)) :
    unsigned (singleMarks l) = n.body ++ leftOver n l ∨
      n.frac = some [] ∧ unsigned (singleMarks l) = n.whole.map .digit ∧ leftOver n l = [] := by
  rcases singleMarks_body n z with hall | ⟨hfrac, hwhole⟩
  · refine .inl ?_
    rw [leftOver, h, hall, List.drop_left]
  · refine .inr ⟨hfrac, h.trans hwhole, ?_⟩
    rw [leftOver, h, hwhole, List.drop_eq_nil_of_le]
    rw [length_body, hfrac, List.length_map]
    exact Nat.le_add_right ..

/-- **What the first loop goes over**, of a text with a numeral in front that is not `-.digits`: the numeral,
but for a point at its end, and what is left over. -/
theorem unsigned_singleMarks (n : Numeral) (z : List Sym)
    (h : ¬ (n.neg = true ∧ n.whole = [] ∧ n.frac ≠ none)) :
    (unsigned (singleMarks (n.spell ++ z)) = n.body ++ leftOver n (n.spell ++ z) ∨
      n.frac = some [] ∧ unsigned (singleMarks (n.spell ++ z)) = n.whole.map .digit ∧
        leftOver n (n.spell ++ z) = []) ∧
    (decide ((singleMarks (n.spell ++ z)).head? = some .minus) = n.neg ∨ n.body = []) := by
  by_cases hbody : n.body = []
  · -- nothing, or a sign alone
    refine ⟨.inl ?_, .inr hbody⟩
    rw [leftOver, hbody, List.nil_append, List.length_nil, List.drop_zero]
  · cases hneg : n.neg with
    | false =>
      have hspell : n.spell ++ z = n.body ++ z := by
        rw [Numeral.spell, hneg]
        rfl
      have hhead : (singleMarks (n.body ++ z)).head? ≠ some .minus := by
        intro hminus
        obtain ⟨r, hr⟩ := singleMarks_front (n.body ++ z)
        apply head?_body n z hbody
        rw [← hr, List.head?_append, hminus]
        rfl
      rw [hspell]
      exact ⟨leftOver_of_unsigned n z (unsigned_of_head? hhead), .inl (decide_eq_false hhead)⟩
    | true =>
      have hspell : n.spell ++ z = .minus :: (n.body ++ z) := by
        rw [Numeral.spell, hneg]
        rfl
      have hmark : ¬ ((n.body ++ z).head? = some .minus ∨ (n.body ++ z).head? = some .point) := by
        rintro (hminus | hpoint)
        · exact head?_body n z hbody hminus
        · obtain ⟨neg, ds, fr⟩ := n
          cases ds with
          | cons d ds => cases hpoint
          | nil =>
            cases fr with
            | none => exact hbody rfl
            | some f => exact h ⟨hneg, rfl, by simp⟩
      have hwent : singleMarks (n.spell ++ z) = .minus :: singleMarks (n.body ++ z) := by
        rw [hspell, singleMarks_mark (.inl rfl), if_neg hmark]
      refine ⟨leftOver_of_unsigned n z ?_, .inl ?_⟩
      · rw [hwent]
        rfl
      · rw [hwent]
        rfl

theorem mem_weights {l : List Sym} {a : Int} (h : a ∈ weights l) : -3 ≤ a ∧ a ≤ 9 := by
  obtain ⟨s, -, hs⟩ := List.mem_filterMap.mp h
  cases s with
  | digit d =>
    cases hs
    omega
  | minus =>
    cases hs
    decide
  | point => cases hs
  | other => cases hs

/-- Nothing is added by zeros and points only. -/
theorem weights_zero_iff {l : List Sym} (h : .other ∉ l) :
    (∀ a ∈ weights l, a = 0) ↔ ∀ x ∈ l, x = .digit 0 ∨ x = .point := by
  simp only [weights, List.mem_filterMap, forall_exists_index, and_imp]
  constructor
  · intro hzero x hx
    cases x with
    | digit d =>
      have hd := hzero _ _ hx rfl
      exact .inl (congrArg Sym.digit (Fin.ext (by simpa using hd)))
    | minus => exact absurd (hzero _ _ hx rfl) (by decide)
    | point => exact .inr rfl
    | other => exact absurd hx h
  · intro hall a x hx hw
    rcases hall x hx with rfl | rfl
    · cases hw
      rfl
    · cases hw

theorem weights_append (l m : List Sym) : weights (l ++ m) = weights l ++ weights m := List.filterMap_append ..

theorem weights_digits (ds : List (Fin 10)) : weights (ds.map .digit) = ds.map fun d => (d.val : Int) := by
  simp [weights, weight, List.filterMap_map, Function.comp_def]

theorem wholeDigits_digits (ds : List (Fin 10)) (l : List Sym) :
    wholeDigits (ds.map .digit ++ l) = ds.length + wholeDigits l := by
  induction ds with
  | nil => simp
  | cons d ds ih =>
    show wholeDigits (ds.map .digit ++ l) + 1 = _
    rw [ih, List.length_cons]
    omega

theorem natValue_eq_zero_iff (ds : List (Fin 10)) : natValue ds = 0 ↔ ∀ d ∈ ds, d = 0 := by
  have hbounds : ∀ a ∈ ds.map fun d => (d.val : Int), -3 ≤ a ∧ a ≤ 9 := by
    intro a ha
    obtain ⟨d, -, rfl⟩ := List.mem_map.mp ha
    omega
  have h := weigh_eq_zero_iff hbounds ((ds.length : Int) - 1)
  rw [weigh_digits, Nat.cast_eq_zero] at h
  rw [h, List.forall_mem_map]
  refine forall₂_congr fun d _ => ?_
  rw [Fin.ext_iff]
  simp

/-- **The second loop adds up to the numeral** exactly if what is left over adds nothing and moves nothing. -/
theorem total_body_iff (n : Numeral) {rest : List Sym} (h : .other ∉ rest) :
    total (n.body ++ rest) = n.absValue ↔
      (∀ x ∈ rest, x = .digit 0 ∨ x = .point) ∧
        (n.frac ≠ none ∨ wholeDigits rest = 0 ∨ ∀ d ∈ n.whole, d = 0) := by
  have hbounds : ∀ a ∈ weights rest, -3 ≤ a ∧ a ≤ 9 := fun a ha => mem_weights ha
  rw [← weights_zero_iff h]
  obtain ⟨neg, ds, fr⟩ := n
  cases fr with
  | some f =>
    have hshape : (⟨neg, ds, some f⟩ : Numeral).body ++ rest = ds.map .digit ++ (.point :: (f.map .digit ++ rest)) := by
      simp [Numeral.body]
    have hweights : weights (ds.map .digit ++ (.point :: (f.map .digit ++ rest))) =
        (ds.map fun d => (d.val : Int)) ++ ((f.map fun d => (d.val : Int)) ++ weights rest) := by
      rw [weights_append, weights_digits]
      show _ ++ weights (f.map .digit ++ rest) = _
      rw [weights_append, weights_digits]
    have hwhole : (wholeDigits (ds.map .digit ++ (.point :: (f.map .digit ++ rest))) : Int) - 1 = ds.length - 1 := by
      rw [wholeDigits_digits]
      rfl
    have hone : (ds.length : Int) - 1 - ds.length = -1 := by omega
    rw [total, hshape, hwhole, hweights, weigh_append, weigh_append, weigh_digits, List.length_map,
      hone, weigh_fraction, List.length_map]
    simp [Numeral.absValue, Numeral.fracDigits, weigh_eq_zero_iff hbounds]
  | none =>
    have hshape : (⟨neg, ds, none⟩ : Numeral).body ++ rest = ds.map .digit ++ rest := by simp [Numeral.body]
    have habs : (⟨neg, ds, none⟩ : Numeral).absValue = natValue ds := by
      simp [Numeral.absValue, Numeral.fracDigits, natValue]
    have hsplit : (wholeDigits (ds.map .digit ++ rest) : Int) - 1 = (ds.length : Int) - 1 + wholeDigits rest := by
      rw [wholeDigits_digits]
      omega
    have hlow : (ds.length : Int) - 1 + wholeDigits rest - ds.length = wholeDigits rest - 1 := by omega
    rw [total, hshape, habs, hsplit, weights_append, weights_digits, weigh_append, List.length_map, hlow, weigh_add,
      weigh_digits, moved_eq_iff hbounds, natValue_eq_zero_iff]
    simp [and_comm]

theorem other_not_mem_leftOver (n : Numeral) (b : List Sym) : Sym.other ∉ leftOver n b := by
  intro hmem
  apply other_not_mem_singleMarks b
  have hmem' := List.mem_of_mem_drop hmem
  generalize singleMarks b = went at hmem'
  cases went with
  | nil => exact hmem'
  | cons s went =>
    cases s with
    | minus => exact List.mem_cons_of_mem _ hmem'
    | digit d => exact hmem'
    | point => exact hmem'
    | other => exact hmem'

/-- Nothing is gone over of `-.digits`, and its value has to be 0. -/
theorem scannedValue_bare {n : Numeral} (hneg : n.neg = true) (hwhole : n.whole = []) (hfrac : n.frac ≠ none)
    (z : List Sym) : scannedValue (n.spell ++ z) = n.value ↔ ReadsRight n (n.spell ++ z) := by
  have hwent := singleMarks_bare hneg hwhole hfrac z
  have hzero : scannedValue (n.spell ++ z) = 0 := by
    rw [scannedValue, hwent]
    rfl
  have hrest : leftOver n (n.spell ++ z) = [] := by
    rw [leftOver, hwent]
    exact List.drop_nil
  have hvalue : n.value = 0 ↔ natValue n.fracDigits = 0 := by
    rw [Numeral.value, if_pos hneg, neg_eq_zero, Numeral.absValue, hwhole]
    simp [natValue]
  rw [hzero, eq_comm, hvalue, natValue_eq_zero_iff]
  refine ⟨fun h => ⟨fun _ _ => h, ?_, .inl hfrac⟩, fun h => h.sign hneg hwhole⟩
  rw [hrest]
  exact List.forall_mem_nil _

/-- Behind the sign, what was gone over adds up to the numeral just when it is read right. -/
theorem total_unsigned_iff {n : Numeral} (hbare : ¬ (n.neg = true ∧ n.whole = [] ∧ n.frac ≠ none)) (z : List Sym) :
    total (unsigned (singleMarks (n.spell ++ z))) = n.absValue ↔ ReadsRight n (n.spell ++ z) := by
  have hsign : n.neg = true → n.whole = [] → ∀ d ∈ n.fracDigits, d = 0 := by
    intro hneg hwhole d hd
    have hfrac : n.frac = none := by
      by_contra hfrac
      exact hbare ⟨hneg, hwhole, hfrac⟩
    rw [Numeral.fracDigits, hfrac] at hd
    cases hd
  rcases (unsigned_singleMarks n z hbare).1 with hall | ⟨hfrac, hwhole, hrest⟩
  · rw [hall, total_body_iff n (other_not_mem_leftOver n _)]
    exact ⟨fun h => ⟨hsign, h.1, h.2⟩, fun h => ⟨h.zeros, h.unmoved⟩⟩
  · -- the point at the end was not gone over, and adds nothing
    have hplain := (@total_body_iff ⟨n.neg, n.whole, none⟩ [] List.not_mem_nil).mpr
      ⟨List.forall_mem_nil _, .inr (.inl rfl)⟩
    have habs : total (n.whole.map .digit) = n.absValue := by
      simpa [Numeral.body, Numeral.absValue, Numeral.fracDigits, hfrac, natValue] using hplain
    rw [hwhole]
    refine iff_of_true habs ⟨hsign, ?_, .inl ?_⟩
    · rw [hrest]
      exact List.forall_mem_nil _
    · rw [hfrac]
      simp

/-- **What the two loops compute** of a text with a numeral in front is its value just when it is read right. -/
theorem scannedValue_iff {n : Numeral} {b : List Sym} (hb : n.spell <+: b) :
    scannedValue b = n.value ↔ ReadsRight n b := by
  obtain ⟨z, rfl⟩ := hb
  by_cases hbare : n.neg = true ∧ n.whole = [] ∧ n.frac ≠ none
  · exact scannedValue_bare hbare.1 hbare.2.1 hbare.2.2 z
  · rw [← total_unsigned_iff hbare z]
    rcases (unsigned_singleMarks n z hbare).2 with hsign | hbody
    · rw [scannedValue, Numeral.value, ← hsign]
      by_cases hminus : (singleMarks (n.spell ++ z)).head? = some .minus
      · rw [if_pos hminus, if_pos (decide_eq_true hminus), neg_inj]
      · rw [if_neg hminus, if_neg (by simpa using hminus)]
    · have habs := absValue_of_body_nil hbody
      have hvalue : n.value = 0 := by rw [Numeral.value, habs, neg_zero, ite_self]
      rw [hvalue, habs, scannedValue]
      split
      · exact neg_eq_zero
      · exact Iff.rfl

/-! ## `toNumber` -/

theorem prefix_takeWhile {α : Type} {p : α → Bool} {l m : List α} (h : l <+: m) (hl : ∀ a ∈ l, p a) :
    l <+: m.takeWhile p := by
  obtain ⟨r, rfl⟩ := h
  rw [List.takeWhile_append_of_pos hl]
  exact List.prefix_append ..

theorem other_not_mem_spell (n : Numeral) : Sym.other ∉ n.spell := by
  obtain ⟨neg, ds, fr⟩ := n
  cases neg <;> cases fr <;> simp [Numeral.spell, Numeral.body]

theorem parse_front (l : List Sym) : (parse l).spell <+: l := by
  obtain ⟨z, hz⟩ := parse_append l
  exact ⟨z, hz.symm⟩

/-- A numeral in front of the units is in front of what the OEM page makes of the text. -/
theorem spell_prefix_oem {cp : CodePages} (hkeeps : cp.KeepsNumerals) {units : List UInt16} {u : List UInt8}
    (hu : cp.wideToOem (text units) = some u) {n : Numeral} (hn : n.spell <+: wcharSyms units) :
    n.spell <+: charSyms u := by
  have hother : ∀ x ∈ n.spell, decide (x ≠ .other) = true := by
    intro x hx
    refine decide_eq_true ?_
    rintro rfl
    exact other_not_mem_spell n hx
  -- its units are before the NUL, which is no character of a number
  have hunits : n.spell = wcharSyms (units.take n.spell.length) := by
    have htake := List.prefix_iff_eq_take.mp hn
    rwa [wcharSyms, ← List.map_take] at htake
  have htext : units.take n.spell.length <+: text units := by
    refine prefix_takeWhile (List.take_prefix ..) fun c hc => decide_eq_true ?_
    rintro rfl
    apply other_not_mem_spell n
    rw [hunits]
    exact List.mem_map.mpr ⟨0, hc, rfl⟩
  have hfront : n.spell <+: wcharSyms (text units) := by
    rw [hunits]
    exact htext.map _
  exact (prefix_takeWhile hfront hother).trans (hkeeps _ u hu)

theorem numberRight_iff {s : WingString} {r : Except Fault ℚ} {b : List Sym} (hr : r = .ok (scannedValue b))
    (hb : (parse s.symbols).spell <+: b) : NumberRight s r ↔ ReadsRight (parse s.symbols) b := by
  rw [← scannedValue_iff hb, hr]
  constructor
  · rintro ⟨q, hq, hread⟩
    cases hq
    exact isReading_iff.mp hread
  · intro h
    exact ⟨_, rfl, isReading_iff.mpr h⟩

/-- A `CHAR` string is read where it is. -/
theorem toNumber_char (cp : CodePages) {s : WingString} (hs : s.Inv) (htype : s.strType = .char) :
    s.toNumber cp = .ok (scannedValue s.symbols) := by
  have hlength := hs.length_units
  obtain ⟨mem, hstr, hinv⟩ := hs.char htype
  have hfits := hinv.fits
  have hc : s.symbols = charSyms (mem.take s.length) := by
    rw [WingString.symbols, htype, hstr]
    rfl
  rw [WingString.toNumber, htype, hc, hstr]
  refine readNumber_eq (.inl ?_)
  rw [htype] at hlength
  change (s.length + 1) * 1 = s.strSize at hlength
  omega

/-- A `WCHAR` string is read in its conversion, which has the same numeral in front. -/
theorem toNumber_wchar {cp : CodePages} (hcp : cp.Total) (hkeeps : cp.KeepsNumerals) {s : WingString} (hs : s.Inv)
    (htype : s.strType = .wchar) :
    s.toNumber cp = .ok (scannedValue (s.oemSymbols cp)) ∧ (parse s.symbols).spell <+: s.oemSymbols cp := by
  obtain ⟨mem, hstr, hinv⟩ := hs.wchar htype
  have hzero := List.mem_of_getLast? hinv.last
  obtain ⟨u, hu⟩ := hcp.oem (text (wide mem))
  have hconv : wingStrWcharToChar cp s.str = .ok (some (u ++ [0])) := by
    rw [hstr, wingStrWcharToChar, loadWide, Option.map_some, loadText, if_pos hzero, ok_bind, hu]
  have hb : s.oemSymbols cp = charSyms ((u ++ [0]).take s.length) := by
    rw [WingString.oemSymbols, htype, hstr]
    show (charSyms ((cp.wideToOem (text (wide mem))).getD [] ++ [0])).take s.length = _
    rw [hu, charSyms, charSyms, List.map_take]
    rfl
  have hc : s.symbols = (wcharSyms (wide mem)).take s.length := by
    rw [WingString.symbols, htype, hstr]
    exact List.map_take
  constructor
  · rw [WingString.toNumber, htype, hb]
    show wingStrWcharToChar cp s.str >>= _ = _
    rw [hconv]
    exact readNumber_eq (.inr (by simp))
  · have hfront := parse_front s.symbols
    generalize parse s.symbols = n at hfront
    rw [hc] at hfront
    have hlen := hfront.length_le
    have hnumeral := spell_prefix_oem hkeeps hu (hfront.trans (List.take_prefix ..))
    have hall : n.spell <+: charSyms (u ++ [0]) := by
      rw [charSyms, List.map_append]
      exact hnumeral.trans (List.prefix_append ..)
    rw [hb, charSyms, List.map_take]
    rw [List.length_take] at hlen
    exact List.prefix_take_iff.mpr ⟨hall, by omega⟩

/-- **`toNumber` returns the value of the numeral in front** exactly if it reads it right. -/
theorem toNumber_right_iff {cp : CodePages} (hcp : cp.Total) (hkeeps : cp.KeepsNumerals) {s : WingString}
    (hs : s.Inv) : NumberRight s (s.toNumber cp) ↔ ReadsRight (parse s.symbols) (s.oemSymbols cp) := by
  cases htype : s.strType with
  | unknown =>
    have hb : s.oemSymbols cp = [] := by rw [WingString.oemSymbols, htype]
    have hc : s.symbols = [] := by rw [WingString.symbols, htype]
    refine numberRight_iff ?_ ?_
    · rw [WingString.toNumber, htype, hb]
      rfl
    · rw [hb, hc]
      exact List.prefix_rfl
  | char =>
    have hb : s.oemSymbols cp = s.symbols := by rw [WingString.oemSymbols, htype]
    rw [hb]
    exact numberRight_iff (toNumber_char cp hs htype) (parse_front _)
  | wchar =>
    obtain ⟨hr, hb⟩ := toNumber_wchar hcp hkeeps hs htype
    exact numberRight_iff hr hb

theorem asciiPages_keepsNumerals : asciiPages.KeepsNumerals := by
  intro t u hu
  cases hu
  induction t with
  | nil => exact List.prefix_rfl
  | cons c t ih =>
    show (symOf c.toNat :: wcharSyms t).takeWhile _ <+: symOf (toAscii c).toNat :: charSyms (t.map toAscii)
    by_cases hother : symOf c.toNat = .other
    · rw [List.takeWhile_cons_of_neg (by simp [hother])]
      exact List.nil_prefix
    · have hlow : c.toNat < 128 := by
        by_contra hhigh
        exact hother (symOf_other (by omega) (by omega))
      have hsame : (toAscii c).toNat = c.toNat := by
        rw [toAscii, if_pos hlow, UInt8.toNat_ofNat', Nat.mod_eq_of_lt (by omega)]
      rw [List.takeWhile_cons_of_pos (by simp [hother]), hsame]
      exact List.cons_prefix_cons.mpr ⟨rfl, ih⟩

/-- `"-12.50"`. -/
theorem toNumber_minus :
    NumberRight ⟨some [45, 49, 50, 46, 53, 48, 0], 7, .char⟩
      (WingString.toNumber asciiPages ⟨some [45, 49, 50, 46, 53, 48, 0], 7, .char⟩) :=
  (@toNumber_right_iff asciiPages asciiPages_total asciiPages_keepsNumerals
    ⟨some [45, 49, 50, 46, 53, 48, 0], 7, .char⟩ ⟨_, rfl, by decide, by decide, rfl, rfl⟩).mpr (by decide)

/-- `"-.5"`. -/
theorem toNumber_bare :
    ¬ ∀ (cp : CodePages) (s : WingString), cp.Total → cp.KeepsNumerals → s.Inv → s.strType ≠ .unknown →
      NumberRight s (s.toNumber cp) := by
  intro h
  have hs : WingString.Inv ⟨some [45, 46, 53, 0], 4, .char⟩ := ⟨_, rfl, by decide, by decide, rfl, rfl⟩
  obtain ⟨q, hq, hread⟩ := h asciiPages _ asciiPages_total asciiPages_keepsNumerals hs (by decide)
  have hzero : WingString.toNumber asciiPages ⟨some [45, 46, 53, 0], 4, .char⟩ = .ok 0 := rfl
  rw [hzero] at hq
  cases hq
  have hvalue : (0 : ℚ) = (⟨true, [], some [5]⟩ : Numeral).value := isReading_iff.mp hread
  norm_num [Numeral.value, Numeral.absValue, Numeral.fracDigits, natValue] at hvalue

end WingPhp.Strings
