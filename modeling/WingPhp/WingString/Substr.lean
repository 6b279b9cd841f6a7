import WingPhp.WingString.Readers

/-!
# `substr`

Positions in a string are addresses here, of 32 bits, computed as `unsigned long` from an `int`, and
compared (`ulong`).  The block of the string stands at `addr`; what is read outside it is a `Fault`.

`substr_right_iff` says for which addresses and arguments no position wraps around.
-/

namespace WingPhp.Strings

open Memory

/-- A value of 32 bits with a sign. -/
def IsInt (x : Int) : Prop := -0x80000000 ≤ x ∧ x < 0x80000000

/-- As an `unsigned long`. -/
def ulong (x : Int) : Nat := (x % 0x100000000).toNat

/-- `n` bytes at an address, of a block at `addr`. -/
def loadAt (addr : Nat) (mem : List UInt8) (x n : Nat) : Except Fault (List UInt8) :=
  if n = 0 then .ok []
  else if addr ≤ x ∧ x + n ≤ addr + mem.length then .ok ((mem.drop (x - addr)).take n)
  else .error .outside

/-- `start_str`; `none` for the `NULL` that is returned at once. -/
def startStr (addr strSize sl : Nat) (start : Int) : Option Nat :=
  let endStr := ulong (addr + strSize - sl)
  if 0 ≤ start then
    let startStr := ulong (addr + ulong (start * sl))
    if endStr ≤ startStr then none else some startStr
  else
    let startStr := ulong (addr + strSize + (start - 1) * sl)
    some (if startStr < addr then addr else startStr)

/-- The length taken, and the copy. -/
def copyUnits (addr : Nat) (mem : List UInt8) (startStr endStr sl : Nat) (length : Int) :
    Except Fault (Ptr UInt8) := do
  let room := ulong ((endStr : Int) - startStr) / sl
  let length := if room < ulong length then room else ulong length
  let data ← loadAt addr mem startStr (ulong (length * sl))
  let subatr ← store (malloc (ulong ((length + 1) * sl))) 0 data
  .ok (some subatr)

/-- `substr( int start, int length )`, with the block at `addr`. -/
def WingString.substr (s : WingString) (addr : Nat) (start length : Int) : Except Fault (Ptr UInt8) :=
  match s.strType, s.str with
  | .unknown, _ => .ok none
  | _, none => .error .null
  | t, some mem =>
    match startStr addr s.strSize t.unitSize start with
    | none => .ok none
    | some x => copyUnits addr mem x (ulong (addr + s.strSize - t.unitSize)) t.unitSize length

/-! ## What it is for -/

/-- The block at a place in the 4 GB of addresses; sizes are counted in an `int`. -/
def PlacedAt (s : WingString) (addr : Nat) : Prop :=
  ∀ mem, s.str = some mem → 0 < addr ∧ addr + mem.length ≤ 0x100000000 ∧ mem.length < 0x80000000

/-- The units from `p` up to `q`, with a NUL behind them. -/
def unitsBetween (mem : List UInt8) (sl p q : Nat) : List UInt8 :=
  (mem.drop (p * sl)).take ((q - p) * sl) ++ malloc sl

/-- The first position, of a string of `n` units. -/
def fromPos (n : Nat) (start : Int) : Nat := if 0 ≤ start then start.toNat else (max 0 ((n : Int) + start)).toNat

/-- The position behind the last one. -/
def toPos (n p : Nat) (length : Int) : Nat := if length < 0 then n else min (p + length.toNat) n

/-- `NULL` for no type and for a start behind the string, and the units otherwise. -/
def SubstrRight (s : WingString) (start length : Int) (r : Except Fault (Ptr UInt8)) : Prop :=
  if s.strType = .unknown ∨ (0 ≤ start ∧ (s.length : Int) ≤ start) then r = .ok none
  else
    ∃ mem, s.str = some mem ∧
      r = .ok (some (unitsBetween mem s.strType.unitSize (fromPos s.length start)
        (toPos s.length (fromPos s.length start) length)))

/-- No position wraps around, or it does not matter: nothing is asked for, or the way round the address
space ends at the block again. -/
def NoWrap (s : WingString) (addr : Nat) (start length : Int) : Prop :=
  s.strType = .unknown ∨
  (0 ≤ start ∧ addr + start * s.strType.unitSize < 0x100000000) ∨
  (start < 0 ∧ (0 ≤ s.length + start ∨ -((s.length : Int) + start) * s.strType.unitSize ≤ addr ∨ length = 0 ∨
    -((s.length : Int) + start) * s.strType.unitSize = 0x100000000))

instance (s : WingString) (addr : Nat) (start length : Int) : Decidable (NoWrap s addr start length) :=
  inferInstanceAs (Decidable (_ ∨ _))

/-! ## Arithmetic of 32 bits -/

theorem ulong_of_lt {x : Int} (h0 : 0 ≤ x) (h : x < 0x100000000) : ulong x = x.toNat := by
  unfold ulong
  rw [Int.emod_eq_of_lt h0 h]

theorem ulong_natCast {n : Nat} (h : n < 0x100000000) : ulong n = n := by
  rw [ulong_of_lt (by omega) (by omega)]
  rfl

theorem ulong_lt (x : Int) : ulong x < 0x100000000 := by
  unfold ulong
  omega

/-- Once around. -/
theorem ulong_add (x : Int) : ulong (x + 0x100000000) = ulong x := by
  unfold ulong
  omega

theorem ulong_sub (x : Int) : ulong (x - 0x100000000) = ulong x := by
  unfold ulong
  omega

/-! ## The copy -/

section
variable {addr sl : Nat} {mem : List UInt8} {n : Nat}

/-- **From a position in the string.** -/
theorem copyUnits_inside (hsl : sl = 1 ∨ sl = 2) (hmem : mem.length < 0x80000000)
    (hfits : (n + 1) * sl ≤ mem.length) {p : Nat} (hp : p ≤ n) {length : Int} (hlength : IsInt length) :
    copyUnits addr mem (addr + p * sl) (addr + n * sl) sl length =
      .ok (some (unitsBetween mem sl p (toPos n p length))) := by
  obtain ⟨hlo, hhi⟩ := hlength
  have hn : n < 0x80000000 := by rcases hsl with rfl | rfl <;> omega
  have hdiff : (((addr + n * sl : Nat) : Int) - (addr + p * sl : Nat)) = ((n - p) * sl : Nat) := by
    rcases hsl with rfl | rfl <;> omega
  have hroom : ulong (((addr + n * sl : Nat) : Int) - (addr + p * sl : Nat)) / sl = n - p := by
    rw [hdiff, ulong_natCast (by rcases hsl with rfl | rfl <;> omega)]
    rcases hsl with rfl | rfl <;> omega
  have hcount : (if n - p < ulong length then n - p else ulong length) = toPos n p length - p := by
    unfold toPos ulong
    split <;> split <;> omega
  have hle : toPos n p length - p ≤ n - p := by
    unfold toPos
    split <;> omega
  generalize toPos n p length = q at hcount hle
  have hbytes : ulong (((q - p : Nat) : Int) * sl) = (q - p) * sl := by
    rw [← Int.natCast_mul, ulong_natCast (by rcases hsl with rfl | rfl <;> omega)]
  have hblock : ulong ((((q - p : Nat) : Int) + 1) * sl) = (q - p) * sl + sl := by
    have hcast : (((q - p : Nat) : Int) + 1) * sl = ((q - p) * sl + sl : Nat) := by
      rcases hsl with rfl | rfl <;> omega
    rw [hcast, ulong_natCast (by rcases hsl with rfl | rfl <;> omega)]
  have hload : loadAt addr mem (addr + p * sl) ((q - p) * sl) = .ok ((mem.drop (p * sl)).take ((q - p) * sl)) := by
    unfold loadAt
    split
    · next hzero => rw [hzero, List.take_zero]
    · rw [if_pos ⟨Nat.le_add_right .., by rcases hsl with rfl | rfl <;> omega⟩, Nat.add_sub_cancel_left]
  have hdata : ((mem.drop (p * sl)).take ((q - p) * sl)).length = (q - p) * sl := by
    rw [List.length_take_of_le]
    rw [List.length_drop]
    rcases hsl with rfl | rfl <;> omega
  simp only [copyUnits, hroom, hcount, hbytes, hblock, hload, ok_bind]
  rw [store_malloc (by omega), hdata, Nat.add_sub_cancel_left]
  rfl

/-- Nothing is asked for, wherever it is. -/
theorem copyUnits_zero (hsl : sl = 1 ∨ sl = 2) (x y : Nat) :
    copyUnits addr mem x y sl 0 = .ok (some (malloc sl)) := by
  have hzero : (if ulong ((y : Int) - x) / sl < ulong 0 then ulong ((y : Int) - x) / sl else ulong 0) = 0 :=
    if_neg (Nat.not_lt_zero _)
  simp only [copyUnits, hzero]
  rcases hsl with rfl | rfl <;> rfl

/-- **From a place that is not in the block.** -/
theorem copyUnits_outside (hsl : sl = 1 ∨ sl = 2) {x y : Nat} (hx : x < addr ∨ addr + mem.length ≤ x)
    (hroom : sl ≤ ulong ((y : Int) - x)) {length : Int} (hlength : IsInt length) (hne : length ≠ 0) :
    copyUnits addr mem x y sl length = .error .outside := by
  obtain ⟨hlo, hhi⟩ := hlength
  have hlt := ulong_lt ((y : Int) - x)
  have hcount : 0 < ulong length := by
    unfold ulong
    omega
  simp only [copyUnits]
  generalize ulong ((y : Int) - x) = room at hroom hlt
  obtain ⟨k, hk, hpos, hle⟩ : ∃ k, (if room / sl < ulong length then room / sl else ulong length) = k ∧
      0 < k ∧ k * sl ≤ room := by
    refine ⟨_, rfl, ?_, ?_⟩
    · split
      · rcases hsl with rfl | rfl <;> omega
      · exact hcount
    · rcases hsl with rfl | rfl <;> split <;> omega
  have hbytes : ulong ((k : Int) * sl) = k * sl := by
    rw [← Int.natCast_mul, ulong_natCast (by omega)]
  have hpos' : 0 < k * sl := by rcases hsl with rfl | rfl <;> omega
  rw [hk, hbytes]
  have hload : loadAt addr mem x (k * sl) = .error .outside := by
    rw [loadAt, if_neg (by omega), if_neg (by omega)]
  rw [hload]
  rfl

/-! ## The start -/

theorem endStr_eq (hsl : sl = 1 ∨ sl = 2) (hfits : addr + (n + 1) * sl ≤ 0x100000000) :
    ulong ((addr : Int) + ((n + 1) * sl : Nat) - sl) = addr + n * sl := by
  have hcast : (addr : Int) + ((n + 1) * sl : Nat) - sl = (addr + n * sl : Nat) := by
    rcases hsl with rfl | rfl <;> omega
  rw [hcast, ulong_natCast (by rcases hsl with rfl | rfl <;> omega)]

variable {start : Int}

/-- Forward, without a wrap. -/
theorem startStr_forward (hsl : sl = 1 ∨ sl = 2) (hfits : addr + (n + 1) * sl ≤ 0x100000000) (h0 : 0 ≤ start)
    (hint : IsInt start) (h : addr + start * sl < 0x100000000) :
    startStr addr ((n + 1) * sl) sl start =
      if (n : Int) ≤ start then none else some (addr + start.toNat * sl) := by
  obtain ⟨-, hhi⟩ := hint
  have hoff : ulong (start * sl) = start.toNat * sl := by
    rw [ulong_of_lt (by rcases hsl with rfl | rfl <;> omega) (by rcases hsl with rfl | rfl <;> omega)]
    rcases hsl with rfl | rfl <;> omega
  have hx : ulong ((addr : Int) + (start.toNat * sl : Nat)) = addr + start.toNat * sl := by
    rw [← Int.natCast_add, ulong_natCast (by rcases hsl with rfl | rfl <;> omega)]
  simp only [startStr, if_pos h0, endStr_eq hsl hfits, hoff, hx]
  by_cases hn : (n : Int) ≤ start
  · rw [if_pos hn, if_pos (by rcases hsl with rfl | rfl <;> omega)]
  · rw [if_neg hn, if_neg (by rcases hsl with rfl | rfl <;> omega)]

/-- Forward, past the end of the address space: it comes out in front of the block. -/
theorem startStr_wrapped (hsl : sl = 1 ∨ sl = 2) (hfits : addr + (n + 1) * sl ≤ 0x100000000) (h0 : 0 ≤ start)
    (hint : IsInt start) (h : 0x100000000 ≤ addr + start * sl) :
    ∃ x, startStr addr ((n + 1) * sl) sl start = some x ∧ x < addr ∧
      sl ≤ ulong (((addr + n * sl : Nat) : Int) - x) := by
  obtain ⟨-, hhi⟩ := hint
  have hoff : ulong (start * sl) = start.toNat * sl := by
    rw [ulong_of_lt (by rcases hsl with rfl | rfl <;> omega) (by rcases hsl with rfl | rfl <;> omega)]
    rcases hsl with rfl | rfl <;> omega
  have hx : ulong ((addr : Int) + (start.toNat * sl : Nat)) = addr + start.toNat * sl - 0x100000000 := by
    rw [← ulong_sub, ulong_of_lt (by rcases hsl with rfl | rfl <;> omega) (by rcases hsl with rfl | rfl <;> omega)]
    rcases hsl with rfl | rfl <;> omega
  refine ⟨addr + start.toNat * sl - 0x100000000, ?_, by rcases hsl with rfl | rfl <;> omega, ?_⟩
  · simp only [startStr, if_pos h0, endStr_eq hsl hfits, hoff, hx]
    exact if_neg (by rcases hsl with rfl | rfl <;> omega)
  · rw [ulong_of_lt (by rcases hsl with rfl | rfl <;> omega) (by rcases hsl with rfl | rfl <;> omega)]
    rcases hsl with rfl | rfl <;> omega

/-- Where a negative start points. -/
theorem startStr_negative (h : start < 0) :
    startStr addr ((n + 1) * sl) sl start =
      some (if ulong ((addr : Int) + (n + start) * sl) < addr then addr
        else ulong ((addr : Int) + (n + start) * sl)) := by
  have hpos : (addr : Int) + ((n + 1) * sl : Nat) + (start - 1) * sl = addr + (n + start) * sl := by
    rw [Int.natCast_mul, Int.add_assoc, ← Int.add_mul]
    congr 2
    omega
  simp only [startStr, if_neg (Int.not_le.mpr h), hpos]

/-- From the end, inside the string. -/
theorem startStr_back (hsl : sl = 1 ∨ sl = 2) (hfits : addr + (n + 1) * sl ≤ 0x100000000) (h : start < 0)
    (hn : 0 ≤ n + start) :
    startStr addr ((n + 1) * sl) sl start = some (addr + (n + start).toNat * sl) := by
  have hx : ulong ((addr : Int) + (n + start) * sl) = addr + (n + start).toNat * sl := by
    rw [ulong_of_lt (by rcases hsl with rfl | rfl <;> omega) (by rcases hsl with rfl | rfl <;> omega)]
    rcases hsl with rfl | rfl <;> omega
  rw [startStr_negative h, hx, if_neg (by omega)]

/-- In front of the string, where the address can say so, or all the way round. -/
theorem startStr_front (hsl : sl = 1 ∨ sl = 2) (haddr : addr < 0x100000000) (h : start < 0)
    (hn : n + start < 0)
    (hk : -((n : Int) + start) * sl ≤ addr ∨ -((n : Int) + start) * sl = 0x100000000) :
    startStr addr ((n + 1) * sl) sl start = some addr := by
  rw [startStr_negative h]
  rcases hk with hk | hk
  · have hx : ulong ((addr : Int) + (n + start) * sl) < addr := by
      rw [ulong_of_lt (by rcases hsl with rfl | rfl <;> omega) (by rcases hsl with rfl | rfl <;> omega)]
      rcases hsl with rfl | rfl <;> omega
    rw [if_pos hx]
  · have hx : ulong ((addr : Int) + (n + start) * sl) = addr := by
      rw [← ulong_add, ulong_of_lt (by rcases hsl with rfl | rfl <;> omega)
        (by rcases hsl with rfl | rfl <;> omega)]
      rcases hsl with rfl | rfl <;> omega
    rw [hx, if_neg (Nat.lt_irrefl _)]

/-- In front of the string, and below address 0: it comes out behind the block, or at its last unit. -/
theorem startStr_around (hsl : sl = 1 ∨ sl = 2) (hplace : addr + mem.length ≤ 0x100000000)
    (hmem : mem.length < 0x80000000) (hfits : (n + 1) * sl ≤ mem.length)
    (hwide : sl = 2 → mem.length = (n + 1) * sl) (hint : IsInt start) (h : start < 0) (hn : n + start < 0)
    (hk : ¬ -((n : Int) + start) * sl ≤ addr) (hround : ¬ -((n : Int) + start) * sl = 0x100000000) :
    ∃ x, startStr addr ((n + 1) * sl) sl start = some x ∧
      (x = addr + n * sl ∧ 0 < n ∨
        addr + mem.length ≤ x ∧ sl ≤ ulong (((addr + n * sl : Nat) : Int) - x)) := by
  obtain ⟨hlo, -⟩ := hint
  have hx : ulong ((addr : Int) + (n + start) * sl) = (addr + 0x100000000 + (n + start) * sl).toNat := by
    rw [← ulong_add, ulong_of_lt (by rcases hsl with rfl | rfl <;> omega)
      (by rcases hsl with rfl | rfl <;> omega)]
    rcases hsl with rfl | rfl <;> omega
  refine ⟨(addr + 0x100000000 + (n + start) * sl).toNat, ?_, ?_⟩
  · rw [startStr_negative h, hx, if_neg (by rcases hsl with rfl | rfl <;> omega)]
  · rcases hsl with rfl | rfl
    · refine .inr ⟨by omega, ?_⟩
      rw [← ulong_add, ulong_of_lt (by omega) (by omega)]
      omega
    · have hlen := hwide rfl
      by_cases hmin : start = -0x80000000
      · exact .inl ⟨by omega, by omega⟩
      · refine .inr ⟨by omega, ?_⟩
        rw [← ulong_add, ulong_of_lt (by omega) (by omega)]
        omega

/-! ## From the start found -/

/-- What is returned for a start, `NULL` or a copy. -/
def fromStart (addr : Nat) (mem : List UInt8) (endStr sl : Nat) (length : Int) :
    Option Nat → Except Fault (Ptr UInt8)
  | none => .ok none
  | some x => copyUnits addr mem x endStr sl length

/-- What is right for a string of `n` units. -/
def RightUnits (mem : List UInt8) (n sl : Nat) (start length : Int) (r : Except Fault (Ptr UInt8)) : Prop :=
  if 0 ≤ start ∧ (n : Int) ≤ start then r = .ok none
  else r = .ok (some (unitsBetween mem sl (fromPos n start) (toPos n (fromPos n start) length)))

theorem rightUnits_inside {length : Int} {r : Except Fault (Ptr UInt8)} (h : ¬ (0 ≤ start ∧ (n : Int) ≤ start)) :
    RightUnits mem n sl start length r ↔
      r = .ok (some (unitsBetween mem sl (fromPos n start) (toPos n (fromPos n start) length))) := by
  rw [RightUnits, if_neg h]

/-- A start from 0 on is right without a wrap. -/
theorem fromStart_forward_iff (hsl : sl = 1 ∨ sl = 2) (hplace : addr + mem.length ≤ 0x100000000)
    (hmem : mem.length < 0x80000000) (hfits : (n + 1) * sl ≤ mem.length) (h0 : 0 ≤ start) (hstart : IsInt start)
    {length : Int} (hlength : IsInt length) :
    RightUnits mem n sl start length
        (fromStart addr mem (addr + n * sl) sl length (startStr addr ((n + 1) * sl) sl start)) ↔
      addr + start * sl < 0x100000000 := by
  have hroom : addr + (n + 1) * sl ≤ 0x100000000 := by omega
  by_cases hnw : (addr : Int) + start * sl < 0x100000000
  · rw [startStr_forward hsl hroom h0 hstart hnw]
    refine iff_of_true ?_ hnw
    by_cases hn : (n : Int) ≤ start
    · rw [if_pos hn, RightUnits, if_pos ⟨h0, hn⟩]
      rfl
    · have hfrom : fromPos n start = start.toNat := if_pos h0
      rw [if_neg hn, rightUnits_inside (fun h => hn h.2), hfrom]
      exact copyUnits_inside hsl hmem hfits (by omega) hlength
  · obtain ⟨x, hx, hlow, hfar⟩ := startStr_wrapped hsl hroom h0 hstart (by omega)
    have hn : (n : Int) ≤ start := by
      rcases hsl with rfl | rfl <;> omega
    rw [hx, RightUnits, if_pos ⟨h0, hn⟩]
    refine iff_of_false (fun h => ?_) hnw
    change copyUnits addr mem x (addr + n * sl) sl length = .ok none at h
    -- a block is returned, or one is read that is not there
    by_cases hzero : length = 0
    · subst hzero
      rw [copyUnits_zero hsl] at h
      cases h
    · rw [copyUnits_outside hsl (.inl hlow) hfar hlength hzero] at h
      cases h

/-- At the last unit there is nothing left to copy. -/
theorem copyUnits_last_ne (hsl : sl = 1 ∨ sl = 2) (hmem : mem.length < 0x80000000)
    (hfits : (n + 1) * sl ≤ mem.length) (hn : 0 < n) {length : Int} (hlength : IsInt length) (hne : length ≠ 0) :
    copyUnits addr mem (addr + n * sl) (addr + n * sl) sl length ≠
      .ok (some (unitsBetween mem sl 0 (toPos n 0 length))) := by
  intro h
  have hlast := @copyUnits_inside addr _ _ _ hsl hmem hfits _ (Nat.le_refl n) _ hlength
  have hlen := congrArg (fun r => (r.toOption.bind id).map List.length) (hlast.symm.trans h)
  have htop : toPos n n length = n := by
    unfold toPos
    split <;> omega
  have hsome : 0 < toPos n 0 length ∧ toPos n 0 length ≤ n := by
    unfold toPos
    split <;> omega
  rw [htop] at hlen
  simp only [Except.toOption, Option.bind_some, id_eq, Option.map_some, unitsBetween, List.length_append,
    length_malloc, Nat.sub_self, Nat.zero_mul, List.take_zero, List.drop_zero, List.length_nil, List.length_take,
    Option.some.injEq, Nat.sub_zero] at hlen
  rcases hsl with rfl | rfl <;> omega

/-- A start below 0 is right inside the string, and in front of it where the address can say so, with nothing
asked for, or all the way round. -/
theorem fromStart_back_iff (hsl : sl = 1 ∨ sl = 2) (hplace : addr + mem.length ≤ 0x100000000)
    (hmem : mem.length < 0x80000000) (hfits : (n + 1) * sl ≤ mem.length)
    (hwide : sl = 2 → mem.length = (n + 1) * sl) (hlt : start < 0) (hstart : IsInt start) {length : Int}
    (hlength : IsInt length) :
    RightUnits mem n sl start length
        (fromStart addr mem (addr + n * sl) sl length (startStr addr ((n + 1) * sl) sl start)) ↔
      (0 ≤ (n : Int) + start ∨ -((n : Int) + start) * sl ≤ addr ∨ length = 0 ∨
        -((n : Int) + start) * sl = 0x100000000) := by
  have hroom : addr + (n + 1) * sl ≤ 0x100000000 := by omega
  rw [rightUnits_inside (fun h => absurd h.1 (Int.not_le.mpr hlt))]
  by_cases hn : 0 ≤ (n : Int) + start
  · rw [startStr_back hsl hroom hlt hn]
    refine iff_of_true ?_ (.inl hn)
    have hfrom : fromPos n start = ((n : Int) + start).toNat := by
      rw [fromPos, if_neg (Int.not_le.mpr hlt), Int.max_eq_right hn]
    rw [hfrom]
    exact copyUnits_inside hsl hmem hfits (by omega) hlength
  · have hfrom : fromPos n start = 0 := by
      rw [fromPos, if_neg (Int.not_le.mpr hlt), Int.max_eq_left (by omega)]
      rfl
    have hfront := @copyUnits_inside addr _ _ _ hsl hmem hfits _ (Nat.zero_le n) _ hlength
    rw [Nat.zero_mul, Nat.add_zero] at hfront
    rw [hfrom]
    by_cases hk : -((n : Int) + start) * sl ≤ addr ∨ -((n : Int) + start) * sl = 0x100000000
    · rw [startStr_front hsl (by rcases hsl with rfl | rfl <;> omega) hlt (by omega) hk]
      refine iff_of_true hfront ?_
      rcases hk with hk | hk
      · exact .inr (.inl hk)
      · exact .inr (.inr (.inr hk))
    · rw [not_or] at hk
      obtain ⟨x, hx, hwhere⟩ :=
        startStr_around hsl hplace hmem hfits hwide hstart hlt (by omega) hk.1 hk.2
      rw [hx]
      simp only [hn, hk.1, hk.2, false_or, or_false]
      by_cases hzero : length = 0
      · subst hzero
        refine iff_of_true ?_ rfl
        show copyUnits addr mem x _ sl 0 = _
        rw [copyUnits_zero hsl, unitsBetween, toPos, if_neg (Int.lt_irrefl 0)]
        simp
      · refine iff_of_false (fun h => ?_) hzero
        change copyUnits addr mem x (addr + n * sl) sl length = _ at h
        rcases hwhere with ⟨rfl, hn'⟩ | ⟨hout, hfar⟩
        · exact copyUnits_last_ne hsl hmem hfits hn' hlength hzero h
        · rw [copyUnits_outside hsl (.inr hout) hfar hlength hzero] at h
          cases h

end

/-! ## `substr` -/

/-- The numbers of a string with a type: its units are followed by one more, inside the block. -/
theorem WingString.Inv.units {s : WingString} (hs : s.Inv) (htype : s.strType ≠ .unknown) :
    ∃ mem, s.str = some mem ∧ (s.strType.unitSize = 1 ∨ s.strType.unitSize = 2) ∧
      s.strSize = (s.length + 1) * s.strType.unitSize ∧ (s.length + 1) * s.strType.unitSize ≤ mem.length ∧
      (s.strType.unitSize = 2 → mem.length = (s.length + 1) * s.strType.unitSize) := by
  have hsize := hs.length_units
  rw [hsize]
  cases ht : s.strType with
  | unknown => exact absurd ht htype
  | char =>
    obtain ⟨mem, hmem, hinv⟩ := hs.char ht
    exact ⟨mem, hmem, .inl rfl, rfl, hinv.fits, fun h => by cases h⟩
  | wchar =>
    obtain ⟨mem, hmem, hinv⟩ := hs.wchar ht
    have hwhole := hinv.whole
    exact ⟨mem, hmem, .inr rfl, rfl, Nat.le_of_eq hwhole, fun _ => hwhole.symm⟩

/-- **`substr` returns the units asked for** exactly if no position wraps around: forward from the block, or
in front of it below address 0. -/
theorem substr_right_iff {s : WingString} (hs : s.Inv) {addr : Nat} (hplace : PlacedAt s addr)
    {start length : Int} (hstart : IsInt start) (hlength : IsInt length) :
    SubstrRight s start length (s.substr addr start length) ↔ NoWrap s addr start length := by
  by_cases htype : s.strType = .unknown
  · have hnull : s.substr addr start length = .ok none := by
      unfold WingString.substr
      rw [htype]
    rw [SubstrRight, if_pos (.inl htype), hnull]
    exact iff_of_true rfl (.inl htype)
  · obtain ⟨mem, hstr, hsl, hsize, hfits, hwide⟩ := hs.units htype
    obtain ⟨-, hend, hmem⟩ := hplace mem hstr
    have hsub : s.substr addr start length =
        fromStart addr mem (ulong (addr + s.strSize - s.strType.unitSize)) s.strType.unitSize length
          (startStr addr s.strSize s.strType.unitSize start) := by
      unfold WingString.substr
      rw [hstr]
      cases ht : s.strType with
      | unknown => exact absurd ht htype
      | char => cases hx : startStr addr s.strSize StrType.char.unitSize start <;> simp only [hx, fromStart]
      | wchar => cases hx : startStr addr s.strSize StrType.wchar.unitSize start <;> simp only [hx, fromStart]
    have hright : ∀ r, SubstrRight s start length r ↔ RightUnits mem s.length s.strType.unitSize start length r := by
      intro r
      simp [SubstrRight, RightUnits, htype, hstr]
    rw [hright, hsub, hsize]
    unfold NoWrap
    generalize s.length = n at hsize hfits hwide ⊢
    generalize s.strType.unitSize = sl at hsl hsize hfits hwide ⊢
    rw [endStr_eq hsl (Nat.le_trans (Nat.add_le_add_left hfits addr) hend)]
    by_cases h0 : 0 ≤ start
    · rw [fromStart_forward_iff hsl hend hmem hfits h0 hstart hlength]
      simp [htype, h0, Int.not_lt.mpr h0]
    · have hlt : start < 0 := by omega
      rw [fromStart_back_iff hsl hend hmem hfits hwide hlt hstart hlength]
      simp only [htype, h0, hlt, true_and, false_and, false_or]

/-- `"ab"` at 4096, `substr( -1, 5 )`. -/
theorem substr_last :
    SubstrRight ⟨some [97, 98, 0], 3, .char⟩ (-1) 5 (WingString.substr ⟨some [97, 98, 0], 3, .char⟩ 4096 (-1) 5) :=
  (@substr_right_iff ⟨some [97, 98, 0], 3, .char⟩ ⟨_, rfl, by decide, by decide, rfl, rfl⟩ 4096
    (fun mem h => by cases h; decide) (-1) 5 (by unfold IsInt; decide) (by unfold IsInt; decide)).mpr (by decide)

/-- `"ab"` at 4096, `substr( -5000, 1 )`. -/
theorem substr_below_zero :
    ¬ ∀ (s : WingString) (addr : Nat) (start length : Int), s.Inv → PlacedAt s addr → IsInt start →
      IsInt length → SubstrRight s start length (s.substr addr start length) := by
  intro h
  have hrun := h ⟨some [97, 98, 0], 3, .char⟩ 4096 (-5000) 1 ⟨_, rfl, by decide, by decide, rfl, rfl⟩
    (fun mem h => by cases h; decide) (by unfold IsInt; decide) (by unfold IsInt; decide)
  obtain ⟨mem, -, heq⟩ := hrun
  cases heq

end WingPhp.Strings
