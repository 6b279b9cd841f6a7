import WingPhp.WingString.Defs

/-!
# The comparisons

`strcmp` and `wcscmp` compare two texts unit by unit (they are modelled as reading both up to
their NUL).  The eighteen operators are three families: on a `char` literal, on a `wchar_t` literal
and on a `WingString`.  In each a comparison has a test of the answer of `strcmp` or `wcscmp`
(`test`) and answers of its own where a type is `UNKNOW`.  A string of another encoding is
converted: by the orders the receiver's, by `==` the literal.
-/

namespace WingPhp.Strings

open Memory

/-- The order of two texts: negative, 0 or positive. -/
def textCmp {α : Type} [LT α] [DecidableLT α] : List α → List α → Int
  | [], [] => 0
  | [], _ :: _ => -1
  | _ :: _, [] => 1
  | a :: x, b :: y => if a < b then -1 else if b < a then 1 else textCmp x y

def strcmp (str1 str2 : Ptr UInt8) : Except Fault Int := do
  let x ← loadText str1
  let y ← loadText str2
  .ok (textCmp x y)

def wcscmp (str1 str2 : Ptr UInt8) : Except Fault Int := do
  let x ← loadWide str1
  let y ← loadWide str2
  .ok (textCmp x y)

namespace WingString

variable (cp : CodePages) (s t : WingString) (str : Ptr UInt8)

/-! ## On a `char` literal -/

/-- `<`, `<=`, `>` and `>=`. -/
def orderChar (unknow : Bool) (test : Int → Bool) : Except Fault Bool :=
  match s.strType with
  | .unknown => .ok unknow
  | .char => do
    let d ← strcmp s.str str
    .ok (test d)
  | .wchar => do
    let res ← wingStrWcharToChar cp s.str
    let d ← strcmp res str
    .ok (test d)

def ltChar : Except Fault Bool := s.orderChar cp str (decide (str ≠ none)) fun d => decide (d < 0)
def leChar : Except Fault Bool := s.orderChar cp str true fun d => decide (d ≤ 0)
def gtChar : Except Fault Bool := s.orderChar cp str false fun d => decide (d > 0)
def geChar : Except Fault Bool := s.orderChar cp str (decide (str = none)) fun d => decide (d ≥ 0)

def eqChar : Except Fault Bool :=
  match s.strType with
  | .unknown => .ok (decide (str = none))
  | .char => do
    let d ← strcmp s.str str
    .ok (decide (d = 0))
  | .wchar => do
    let res ← wingStrCharToWchar cp str
    let d ← wcscmp s.str res
    .ok (decide (d = 0))

def neChar : Except Fault Bool := do
  let b ← s.eqChar cp str
  .ok (!b)

/-! ## On a `wchar_t` literal -/

def orderWchar (unknow : Bool) (test : Int → Bool) : Except Fault Bool :=
  match s.strType with
  | .unknown => .ok unknow
  | .wchar => do
    let d ← wcscmp s.str str
    .ok (test d)
  | .char => do
    let res ← wingStrCharToWchar cp s.str
    let d ← wcscmp res str
    .ok (test d)

def ltWchar : Except Fault Bool := s.orderWchar cp str (decide (str ≠ none)) fun d => decide (d < 0)
def leWchar : Except Fault Bool := s.orderWchar cp str true fun d => decide (d ≤ 0)
def gtWchar : Except Fault Bool := s.orderWchar cp str false fun d => decide (d > 0)
def geWchar : Except Fault Bool := s.orderWchar cp str (decide (str = none)) fun d => decide (d ≥ 0)

def eqWchar : Except Fault Bool :=
  match s.strType with
  | .unknown => .ok (decide (str = none))
  | .wchar => do
    let d ← wcscmp s.str str
    .ok (decide (d = 0))
  | .char => do
    let res ← wingStrWcharToChar cp str
    let d ← strcmp s.str res
    .ok (decide (d = 0))

def neWchar : Except Fault Bool := do
  let b ← s.eqWchar cp str
  .ok (!b)

/-! ## On a `WingString` -/

/-- The orders: `argUnknow` when the argument is `UNKNOW`, `thisUnknow` when only the receiver is. -/
def orderStr (argUnknow thisUnknow : Bool) (test : Int → Bool) : Except Fault Bool :=
  match t.strType, s.strType with
  | .unknown, _ => .ok argUnknow
  | .char, .char => do
    let d ← strcmp s.str t.str
    .ok (test d)
  | .char, .unknown => .ok thisUnknow
  | .char, .wchar => do
    let res ← wingStrWcharToChar cp s.str
    let d ← strcmp res t.str
    .ok (test d)
  | .wchar, .wchar => do
    let d ← wcscmp s.str t.str
    .ok (test d)
  | .wchar, .unknown => .ok thisUnknow
  | .wchar, .char => do
    let res ← wingStrCharToWchar cp s.str
    let d ← wcscmp res t.str
    .ok (test d)

def ltStr : Except Fault Bool :=
  s.orderStr cp t false (decide (t.strType ≠ .unknown)) fun d => decide (d < 0)
def leStr : Except Fault Bool :=
  s.orderStr cp t (decide (s.strType = .unknown)) true fun d => decide (d ≤ 0)
def gtStr : Except Fault Bool :=
  s.orderStr cp t (decide (s.strType ≠ .unknown)) false fun d => decide (d > 0)
def geStr : Except Fault Bool := s.orderStr cp t true false fun d => decide (d ≥ 0)

/-- With an argument of the other encoding it is the converted receiver that comes second. -/
def eqStr : Except Fault Bool :=
  match t.strType, s.strType with
  | .unknown, _ => .ok (decide (s.strType = .unknown))
  | .char, .char => do
    let d ← strcmp s.str t.str
    .ok (decide (d = 0))
  | .char, .unknown => .ok false
  | .char, .wchar => do
    let res ← wingStrWcharToChar cp s.str
    let d ← strcmp t.str res
    .ok (decide (d = 0))
  | .wchar, .wchar => do
    let d ← wcscmp s.str t.str
    .ok (decide (d = 0))
  | .wchar, .unknown => .ok false
  | .wchar, .char => do
    let res ← wingStrCharToWchar cp s.str
    let d ← wcscmp t.str res
    .ok (decide (d = 0))

def neStr : Except Fault Bool := do
  let b ← s.eqStr cp t
  .ok (!b)

end WingString

end WingPhp.Strings
