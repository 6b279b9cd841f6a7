import WingPhp.Lib.WideChar
import WingPhp.Basic

/-!
# `WingString`

An object of `helper/WingString.class.c`: `str`, `str_size` and `str_type`.  `str` points to a
block of bytes, whichever the type; a `WCHAR` string reads it as `wchar_t` units.  What leaves a
block or follows `NULL` is a `Fault`.

Sizes are naturals: `str_size` and the `int` sizes count bytes of blocks that stand together in
the 2 GB of a Win32 process.  The arguments of the sizes keep their sign, since `size <= 0` asks
for the default.

The code pages of the system are a parameter (`CodePages`).
-/

namespace WingPhp.Strings

open Memory

/-- `WING_STR_IS_CHAR`, `WING_STR_IS_WCHAR`, `WING_STR_IS_UNKNOW`. -/
inductive StrType where
  | char
  | wchar
  | unknown
  deriving DecidableEq, Repr

structure WingString where
  str : Ptr UInt8
  strSize : Nat
  strType : StrType
  deriving DecidableEq, Repr

/-! ## Conversions -/

/-- The conversions of the system, on texts without their NUL; `none` when the call answers 0. -/
structure CodePages where
  /-- `MultiByteToWideChar(CP_ACP)`. -/
  acpToWide : List UInt8 → Option (List UInt16)
  /-- `WideCharToMultiByte(CP_OEMCP)`. -/
  wideToOem : List UInt16 → Option (List UInt8)
  /-- `WideCharToMultiByte(CP_UTF8)`. -/
  wideToUtf8 : List UInt16 → Option (List UInt8)

/-- `strlen`. -/
def strlen (str : Ptr UInt8) : Except Fault Nat := do
  let t ← loadText str
  .ok t.length

/-- What the wide string functions read at `str`. -/
def loadWide (str : Ptr UInt8) : Except Fault (List UInt16) := loadText (str.map wide)

/-- `wcslen`. -/
def wcslen (str : Ptr UInt8) : Except Fault Nat := do
  let t ← loadWide str
  .ok t.length

/-- `sizeof(wchar_t)`. -/
def wcharSize : Nat := 2

/-- `WING_CHAR_SIZE`. -/
def wingCharSize (str : Ptr UInt8) : Except Fault Nat := do
  let n ← strlen str
  .ok (n + 1)

/-- `WING_WCHAR_SIZE`. -/
def wingWcharSize (str : Ptr UInt8) : Except Fault Nat := do
  let n ← wcslen str
  .ok ((n + 1) * wcharSize)

/-- `wing_str_wchar_to_char`. -/
def wingStrWcharToChar (cp : CodePages) : Ptr UInt8 → Except Fault (Ptr UInt8)
  | none => .ok none
  | some mem => do
    let t ← loadWide (some mem)
    match cp.wideToOem t with
    | none => .ok none
    | some res => .ok (some (res ++ [0]))

/-- `wing_str_char_to_wchar`.  The text goes to the conversion with its length, and a length of 0
makes it fail; a failed conversion leaves the cleared buffer of one unit. -/
def wingStrCharToWchar (cp : CodePages) (str : Ptr UInt8) : Except Fault (Ptr UInt8) := do
  let t ← loadText str
  let res := if t.length = 0 then none else cp.acpToWide t
  .ok (some (narrow (res.getD [] ++ [0])))

/-- `wing_str_wchar_to_utf8`: a byte is left over behind the NUL. -/
def wingStrWcharToUtf8 (cp : CodePages) : Ptr UInt8 → Except Fault (Ptr UInt8)
  | none => .ok none
  | some mem => do
    let t ← loadWide (some mem)
    match cp.wideToUtf8 t with
    | none => .ok none
    | some res => .ok (some (res ++ [0] ++ [0]))

/-- `wing_str_char_to_utf8`. -/
def wingStrCharToUtf8 (cp : CodePages) : Ptr UInt8 → Except Fault (Ptr UInt8)
  | none => .ok none
  | some mem => do
    let t ← loadText (some mem)
    match cp.acpToWide t with
    | none => .ok none
    | some units => do
      let unicode ← loadWide (some (narrow (units ++ [0] ++ [0])))
      match cp.wideToUtf8 unicode with
      | none => .ok none
      | some res => .ok (some (res ++ [0] ++ [0]))

/-! ## Constructors and readers -/

/-- A size argument of a string: what the macro says unless it is positive. -/
def sizeOr (size : Int) (occupied : Except Fault Nat) : Except Fault Nat :=
  if size ≤ 0 then occupied else .ok size.toNat

namespace WingString

/-- `WingString( char *_str, int _size )`. -/
def ofChar (str : Ptr UInt8) (size : Int) : Except Fault WingString := do
  let size ← sizeOr size (wingCharSize str)
  let block ← memcpy (malloc size) 0 str size
  .ok { str := some block, strSize := size, strType := .char }

/-- `WingString( wchar_t *_str, int _size )`. -/
def ofWchar (str : Ptr UInt8) (size : Int) : Except Fault WingString := do
  let size ← sizeOr size (wingWcharSize str)
  let block ← memcpy (malloc size) 0 str size
  .ok { str := some block, strSize := size, strType := .wchar }

/-- `WingString()`. -/
def new : WingString := { str := none, strSize := 0, strType := .unknown }

/-- `length()`. -/
def length (s : WingString) : Nat :=
  match s.strType with
  | .char => ulongPred s.strSize
  | .wchar => ulongPred (s.strSize / wcharSize)
  | .unknown => 0

/-- `copy()`. -/
def copy (s : WingString) : Except Fault (Ptr UInt8) :=
  if s.str = none ∨ s.strSize ≤ 0 then .ok none
  else do
    let res ← memcpy (malloc s.strSize) 0 s.str s.strSize
    .ok (some res)

/-- `c_str()`. -/
def cStr (cp : CodePages) (s : WingString) : Except Fault (Ptr UInt8) :=
  match s.strType with
  | .char => s.copy
  | .wchar => wingStrWcharToChar cp s.str
  | .unknown => .ok none

/-- `w_str()`. -/
def wStr (cp : CodePages) (s : WingString) : Except Fault (Ptr UInt8) :=
  match s.strType with
  | .char => wingStrCharToWchar cp s.str
  | .wchar => s.copy
  | .unknown => .ok none

/-- The end of `toUTF8()`: the new block takes the place of the old one. -/
def takeUtf8 (s : WingString) : Ptr UInt8 → Except Fault (WingString × Bool)
  | none => .ok (s, false)
  | some block => do
    let size ← wingCharSize (some block)
    .ok ({ str := some block, strSize := size, strType := .char }, true)

/-- `toUTF8()`, with its answer. -/
def toUTF8 (cp : CodePages) (s : WingString) : Except Fault (WingString × Bool) :=
  match s.strType with
  | .unknown => .ok (s, true)
  | .char => do
    let utf8Str ← wingStrCharToUtf8 cp s.str
    s.takeUtf8 utf8Str
  | .wchar => do
    let utf8Str ← wingStrWcharToUtf8 cp s.str
    s.takeUtf8 utf8Str

end WingString

end WingPhp.Strings
