import WingPhp.WingString.Defs

/-!
# `wing_str_trim`

It works inside the buffer, between `start` and `end`, which the model keeps as offsets.  On an
empty string `end` is one in front of the buffer, and the second loop reads the byte there
(`before`; `none` when that faults).  `isspace` is a parameter: it is asked about a `char`, which
is signed.
-/

namespace WingPhp.Strings

open Memory

/-- A `char` as an `int`. -/
def charToInt (c : UInt8) : Int := if c.toNat < 128 then c.toNat else (c.toNat : Int) - 256

/-- The byte at an offset, which may be the one in front of the buffer. -/
def byteAt (before : Option UInt8) (mem : List UInt8) : Int → Except Fault UInt8
  | .ofNat i =>
    match mem[i]? with
    | some c => .ok c
    | none => .error .outside
  | .negSucc 0 =>
    match before with
    | some c => .ok c
    | none => .error .outside
  | .negSucc _ => .error .outside

section

variable (isspace : Int → Bool) (before : Option UInt8) (mem : List UInt8)

/-- The first loop, `left` bytes before `end`; `none` when `start` runs past it. -/
def findStart : Nat → Nat → Except Fault (Option Nat)
  | 0, start => do
    let c ← byteAt before mem start
    if !isspace (charToInt c) then .ok (some start) else .ok none
  | left + 1, start => do
    let c ← byteAt before mem start
    if !isspace (charToInt c) then .ok (some start) else findStart left (start + 1)

/-- The second loop, `left` bytes behind `start`; `none` when `end` runs past it. -/
def findEnd : Nat → Int → Except Fault (Option Int)
  | 0, fin => do
    let c ← byteAt before mem fin
    if !isspace (charToInt c) && c ≠ 0 then .ok (some fin) else .ok none
  | left + 1, fin => do
    let c ← byteAt before mem fin
    if !isspace (charToInt c) && c ≠ 0 then .ok (some fin) else findEnd left (fin - 1)

/-- The loops and the copy, with `end` at `fin`. -/
def trimBetween (fin : Int) : Except Fault (List UInt8) := do
  match ← findStart isspace before mem fin.toNat 0 with
  | none => store mem 0 [0]
  | some start =>
    match ← findEnd isspace before mem (fin - start).toNat fin with
    | none => store mem 0 [0]
    | some fin => do
      let n := (fin - start + 1).toNat
      -- `memmove`: the source is read before the first byte is written
      let str ← memcpy mem 0 (some (mem.drop start)) n
      store str n [0]

end

/-- `wing_str_trim`. -/
def wingStrTrim (isspace : Int → Bool) (before : Option UInt8) (str : Ptr UInt8) (size : Int) :
    Except Fault (Ptr UInt8) :=
  match str with
  | none => .ok none
  | some mem => do
    let len ← sizeOr size (strlen (some mem))
    let str ← trimBetween isspace before mem ((len : Int) - 1)
    .ok (some str)

/-- `trim()`. -/
def WingString.trim (isspace : Int → Bool) (before : Option UInt8) (s : WingString) :
    Except Fault WingString :=
  if s.str = none ∨ s.strSize ≤ 0 then .ok s
  else
    match s.strType with
    | .char => do
      let str ← wingStrTrim isspace before s.str 0
      let n ← strlen str
      .ok { s with str, strSize := n + 1 }
    | .wchar | .unknown => .ok s

/-! ## What stays of the buffer -/

variable {isspace : Int → Bool} {before : Option UInt8} {mem : List UInt8}

theorem findEnd_le {left : Nat} {fin fin' : Int}
    (h : findEnd isspace before mem left fin = .ok (some fin')) : fin' ≤ fin := by
  induction left generalizing fin with
  | zero =>
    obtain ⟨c, -, h⟩ := bind_eq_ok.mp h
    split at h
    · cases h
      exact Int.le_refl _
    · cases h
  | succ left ih =>
    obtain ⟨c, -, h⟩ := bind_eq_ok.mp h
    split at h
    · cases h
      exact Int.le_refl _
    · have := ih h
      omega

theorem trimBetween_same {fin : Int} {mem' : List UInt8}
    (h : trimBetween isspace before mem fin = .ok mem') (hfin : fin + 1 < mem.length)
    (hlast : mem.getLast? = some 0) : mem'.length = mem.length ∧ mem'.getLast? = some 0 := by
  have hcut : ∀ {str : List UInt8}, store mem 0 [0] = .ok str →
      str.length = mem.length ∧ str.getLast? = some 0 := fun hs =>
    ⟨length_store hs, getLast?_store hs hlast (.inr rfl)⟩
  have hpos : 0 < mem.length := by
    apply List.length_pos_iff.mpr
    rintro rfl
    cases hlast
  obtain ⟨start, -, h⟩ := bind_eq_ok.mp h
  cases start with
  | none => exact hcut h
  | some start =>
    obtain ⟨fin', hend, h⟩ := bind_eq_ok.mp h
    cases fin' with
    | none => exact hcut h
    | some fin' =>
      have hle := findEnd_le hend
      obtain ⟨str, hmove, hnul⟩ := bind_eq_ok.mp h
      obtain ⟨data, hload, hstore⟩ := bind_eq_ok.mp hmove
      have hlen := (load_eq_ok hload).1
      have hstr : str.getLast? = some 0 := getLast?_store hstore hlast (.inl (by omega))
      exact ⟨(length_store hnul).trans (length_store hstore), getLast?_store hnul hstr (.inr rfl)⟩

end WingPhp.Strings
