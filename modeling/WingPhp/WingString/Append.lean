import WingPhp.WingString.Defs

/-!
# Appending

The three overloads of `append`, and the operators that call them.  A `CHAR` receiver copies both
texts by their sizes (`catChar`); a `WCHAR` receiver has `wsprintfW` write both into a cleared
block (`catWchar`), and `wsprintfW` writes at most 1024 characters.

`Content` is what a string is for: a text in one encoding.  `append_holds_iff` says when a string
holds the content of the receiver and the argument together after an `append`.
-/

namespace WingPhp.Strings

open Memory

/-- The limit of `wsprintfW`. -/
def wsprintfLimit : Nat := 1024

/-- `wsprintfW( res, L"%s%s", x, y )`: the units it writes. -/
def wsprintfW (x y : List UInt16) : List UInt16 := (x ++ y ++ [0]).take wsprintfLimit

theorem length_wsprintfW (x y : List UInt16) :
    (wsprintfW x y).length = min wsprintfLimit (x.length + y.length + 1) := by
  rw [wsprintfW, List.length_take]
  simp [Nat.add_assoc]

namespace WingString

/-- Onto a `CHAR` string: `n` bytes at `res` take the place of its last byte. -/
def catChar (s : WingString) (res : Ptr UInt8) (n : Nat) : Except Fault WingString := do
  let newSize := s.strSize + n - 1
  let newStr := malloc newSize
  let newStr ← memcpy newStr 0 s.str (ulongPred s.strSize)
  let newStr ← memcpy newStr (ulongPred s.strSize) res n
  .ok { str := some newStr, strSize := newSize, strType := .char }

/-- Onto a `WCHAR` string, in a block of `newSize` bytes. -/
def catWchar (s : WingString) (buf : Ptr UInt8) (newSize : Nat) : Except Fault WingString := do
  let x ← loadWide s.str
  let y ← loadWide buf
  let buffer ← store (malloc newSize) 0 (narrow (wsprintfW x y))
  .ok { str := some buffer, strSize := newSize, strType := .wchar }

/-- Into a string of type `UNKNOW`: `size` bytes at `str`. -/
def fill (str : Ptr UInt8) (size : Nat) (strType : StrType) : Except Fault WingString := do
  let block ← memcpy (malloc size) 0 str size
  .ok { str := some block, strSize := size, strType := strType }

/-- `append( const wchar_t *_str, int size )`. -/
def appendWchar (cp : CodePages) (s : WingString) (str : Ptr UInt8) (size : Int) :
    Except Fault WingString :=
  if str = none then .ok s
  else do
    let size ← sizeOr size (wingWcharSize str)
    match s.strType with
    | .unknown => fill str size .wchar
    | .char => do
      let res ← wingStrWcharToChar cp str
      let len ← wingCharSize res
      s.catChar res len
    | .wchar => s.catWchar str (s.strSize + size - wcharSize)

/-- `append( const char *_str, int size )`. -/
def appendChar (cp : CodePages) (s : WingString) (str : Ptr UInt8) (size : Int) :
    Except Fault WingString :=
  if str = none then .ok s
  else do
    let size ← sizeOr size (wingCharSize str)
    match s.strType with
    | .unknown => fill str size .char
    | .char => s.catChar str size
    | .wchar => do
      let buf ← wingStrCharToWchar cp str
      let len ← wingWcharSize buf
      s.catWchar buf (len - wcharSize + s.strSize)

/-- `append( WingString &_str )`. -/
def appendStr (cp : CodePages) (s t : WingString) : Except Fault WingString :=
  match s.strType, t.strType with
  | .unknown, _ => fill t.str t.strSize t.strType
  | .char, .unknown => .ok s
  | .char, .char => s.catChar t.str t.strSize
  | .char, .wchar => do
    let res ← wingStrWcharToChar cp t.str
    let len ← wingCharSize res
    s.catChar res len
  | .wchar, .unknown => .ok s
  | .wchar, .wchar => s.catWchar t.str (s.strSize + t.strSize - wcharSize)
  | .wchar, .char => do
    let buf ← wingStrCharToWchar cp t.str
    let len ← wingWcharSize buf
    s.catWchar buf (len - wcharSize + s.strSize)

theorem sizeOr_of_pos {n : Nat} (h : 0 < n) (occupied : Except Fault Nat) :
    sizeOr n occupied = .ok n := by
  rw [sizeOr, if_neg (by omega)]
  rfl

/-- **The third overload is the other two**, on a string of a known type. -/
theorem appendStr_char (cp : CodePages) (s : WingString) {t : WingString} (ht : t.strType = .char)
    (hstr : t.str ≠ none) (hsize : 0 < t.strSize) :
    s.appendStr cp t = s.appendChar cp t.str t.strSize := by
  rw [appendChar, if_neg hstr, sizeOr_of_pos hsize, ok_bind, appendStr, ht]
  cases s.strType <;> rfl

theorem appendStr_wchar (cp : CodePages) (s : WingString) {t : WingString} (ht : t.strType = .wchar)
    (hstr : t.str ≠ none) (hsize : 0 < t.strSize) :
    s.appendStr cp t = s.appendWchar cp t.str t.strSize := by
  rw [appendWchar, if_neg hstr, sizeOr_of_pos hsize, ok_bind, appendStr, ht]
  cases s.strType <;> rfl

/-! ## The operators -/

/-- `operator=(const char* _str)`. -/
def assignChar (cp : CodePages) (s : WingString) (str : Ptr UInt8) : Except Fault WingString := do
  let size ← wingCharSize str
  s.appendChar cp str size

/-- `operator=(const wchar_t* _str)`. -/
def assignWchar (cp : CodePages) (s : WingString) (str : Ptr UInt8) : Except Fault WingString := do
  let size ← wingWcharSize str
  s.appendWchar cp str size

/-- `operator=(WingString &_str )`: the block the receiver had is not freed. -/
def assignStr (_s t : WingString) : Except Fault WingString := do
  let str ← t.copy
  .ok { str, strSize := t.strSize, strType := t.strType }

/-- `operator+(WingString &_str )`: it changes the receiver and answers it. -/
def addStr (cp : CodePages) (s t : WingString) : Except Fault WingString :=
  match t.strType with
  | .unknown => .ok s
  | .char => s.appendChar cp t.str t.strSize
  | .wchar => s.appendWchar cp t.str t.strSize

/-- `operator+( const char* _str )`. -/
def addChar (cp : CodePages) (s : WingString) (str : Ptr UInt8) : Except Fault WingString := do
  let size ← wingCharSize str
  s.appendChar cp str size

/-- `operator+( const wchar_t* _str )`. -/
def addWchar (cp : CodePages) (s : WingString) (str : Ptr UInt8) : Except Fault WingString := do
  let size ← wingWcharSize str
  s.appendWchar cp str size

/-- `operator+=(WingString &_str )`. -/
def addAssignStr (cp : CodePages) (s t : WingString) : Except Fault WingString :=
  match t.strType with
  | .unknown => .ok s
  | .char => s.appendChar cp t.str t.strSize
  | .wchar => s.appendWchar cp t.str t.strSize

/-- `operator+=( const char* _str )`. -/
def addAssignChar (cp : CodePages) (s : WingString) (str : Ptr UInt8) : Except Fault WingString := do
  let size ← wingCharSize str
  s.appendChar cp str size

/-- `operator+=( const wchar_t* _str )`. -/
def addAssignWchar (cp : CodePages) (s : WingString) (str : Ptr UInt8) :
    Except Fault WingString := do
  let size ← wingWcharSize str
  s.appendWchar cp str size

end WingString

/-! ## What a string holds -/

/-- A text in one of the encodings, without its NUL. -/
inductive Content where
  | unknown
  | char (t : List UInt8)
  | wchar (t : List UInt16)
  deriving DecidableEq, Repr

namespace Content

def type : Content → StrType
  | unknown => .unknown
  | char _ => .char
  | wchar _ => .wchar

/-- In characters of the encoding. -/
def length : Content → Nat
  | unknown => 0
  | char t => t.length
  | wchar t => t.length

def NulFree : Content → Prop
  | unknown => True
  | char t => 0 ∉ t
  | wchar t => 0 ∉ t

/-- The bytes occupied, the NUL included. -/
def bytes : Content → List UInt8
  | unknown => []
  | char t => t ++ [0]
  | wchar t => narrow (t ++ [0])

/-- In the encoding of a receiver of this type; a receiver without one takes it as it is. -/
def convert (cp : CodePages) : StrType → Content → Option Content
  | _, unknown => some unknown
  | .unknown, y => some y
  | .char, char t => some (char t)
  | .char, wchar t => (cp.wideToOem t).map char
  | .wchar, char t => (cp.acpToWide t).map wchar
  | .wchar, wchar t => some (wchar t)

/-- One behind the other, of one encoding. -/
def append : Content → Content → Content
  | unknown, y => y
  | char x, char y => char (x ++ y)
  | wchar x, wchar y => wchar (x ++ y)
  | x, _ => x

end Content

/-- The string has this content, and nothing else inside `str_size`. -/
structure WingString.Holds (s : WingString) (x : Content) : Prop where
  type : s.strType = x.type
  size : s.strSize = x.bytes.length
  nulFree : x.NulFree
  block : x ≠ .unknown → ∃ rest, s.str = some (x.bytes ++ rest)

/-- The string has this content, which may have a NUL inside. -/
structure WingString.Has (s : WingString) (x : Content) : Prop where
  type : s.strType = x.type
  size : s.strSize = x.bytes.length
  block : x ≠ .unknown → ∃ rest, s.str = some (x.bytes ++ rest)

theorem WingString.Holds.has {s : WingString} {x : Content} (h : s.Holds x) : s.Has x :=
  ⟨h.type, h.size, h.block⟩

theorem WingString.Has.holds {s : WingString} {x : Content} (h : s.Has x) (hx : x.NulFree) : s.Holds x :=
  ⟨h.type, h.size, hx, h.block⟩

/-- What the conversions are relied on for: they are total, and only NUL becomes NUL. -/
structure CodePages.Total (cp : CodePages) : Prop where
  acp : ∀ t, ∃ u, cp.acpToWide t = some u
  oem : ∀ t, ∃ u, cp.wideToOem t = some u
  acp_nil : cp.acpToWide [] = some []
  acp_nulFree : ∀ t u, 0 ∉ t → cp.acpToWide t = some u → 0 ∉ u
  oem_nulFree : ∀ t u, 0 ∉ t → cp.wideToOem t = some u → 0 ∉ u

/-- The forms of the argument of `append`. -/
inductive Arg where
  | char (str : Ptr UInt8) (size : Int)
  | wchar (str : Ptr UInt8) (size : Int)
  | str (t : WingString)

/-- `append`, of any form of argument. -/
def WingString.append (cp : CodePages) (s : WingString) : Arg → Except Fault WingString
  | .char str size => s.appendChar cp str size
  | .wchar str size => s.appendWchar cp str size
  | .str t => s.appendStr cp t

/-- The argument denotes this content: `NULL` none, a pointer a text with the size defaulted or
that of the bytes occupied. -/
def Arg.Denotes : Arg → Content → Prop
  | .char none _, y => y = .unknown
  | .char (some mem) size, y =>
    ∃ t rest, y = .char t ∧ 0 ∉ t ∧ mem = y.bytes ++ rest ∧ (size ≤ 0 ∨ size = y.bytes.length)
  | .wchar none _, y => y = .unknown
  | .wchar (some mem) size, y =>
    ∃ t rest, y = .wchar t ∧ 0 ∉ t ∧ mem = y.bytes ++ rest ∧ (size ≤ 0 ∨ size = y.bytes.length)
  | .str t, y => t.Holds y

/-! ## Reading a text -/

theorem loadText_block (t rest : List UInt8) :
    loadText (some ((Content.char t).bytes ++ rest)) = .ok (text t) := by
  have hzero : 0 ∈ t ++ [0] := by simp
  show loadText (some (t ++ [0] ++ rest)) = .ok (text t)
  rw [loadText, if_pos (List.mem_append_left _ hzero), text_append hzero, text_concat]

theorem loadWide_block (t : List UInt16) (rest : List UInt8) :
    loadWide (some ((Content.wchar t).bytes ++ rest)) = .ok (text t) := by
  have hzero : 0 ∈ t ++ [0] := by simp
  show loadText (some (wide (narrow (t ++ [0]) ++ rest))) = .ok (text t)
  rw [wide_narrow_append, loadText, if_pos (List.mem_append_left _ hzero), text_append hzero, text_concat]

theorem loadText_bytes {t : List UInt8} (h : 0 ∉ t) (rest : List UInt8) :
    loadText (some ((Content.char t).bytes ++ rest)) = .ok t := by
  rw [loadText_block, (cleared_of_not_mem h).2]

theorem loadWide_bytes {t : List UInt16} (h : 0 ∉ t) (rest : List UInt8) :
    loadWide (some ((Content.wchar t).bytes ++ rest)) = .ok t := by
  rw [loadWide_block, (cleared_of_not_mem h).2]

theorem wingCharSize_bytes {t : List UInt8} (h : 0 ∉ t) (rest : List UInt8) :
    wingCharSize (some ((Content.char t).bytes ++ rest)) = .ok (Content.char t).bytes.length := by
  rw [wingCharSize, strlen, loadText_bytes h]
  simp [Content.bytes]

theorem wingWcharSize_bytes {t : List UInt16} (h : 0 ∉ t) (rest : List UInt8) :
    wingWcharSize (some ((Content.wchar t).bytes ++ rest)) = .ok (Content.wchar t).bytes.length := by
  rw [wingWcharSize, wcslen, loadWide_bytes h]
  simp [Content.bytes, wcharSize, Nat.mul_comm]

theorem wingStrWcharToChar_bytes {cp : CodePages} {t : List UInt16} {u : List UInt8} (h : 0 ∉ t)
    (hu : cp.wideToOem t = some u) (rest : List UInt8) :
    wingStrWcharToChar cp (some ((Content.wchar t).bytes ++ rest)) =
      .ok (some (Content.char u).bytes) := by
  rw [wingStrWcharToChar, loadWide_bytes h, ok_bind, hu]
  rfl

theorem wingStrCharToWchar_bytes {cp : CodePages} (hcp : cp.Total) {t : List UInt8}
    {u : List UInt16} (h : 0 ∉ t) (hu : cp.acpToWide t = some u) (rest : List UInt8) :
    wingStrCharToWchar cp (some ((Content.char t).bytes ++ rest)) =
      .ok (some (Content.wchar u).bytes) := by
  rw [wingStrCharToWchar, loadText_bytes h, ok_bind]
  by_cases hlen : t.length = 0
  · have ht : t = [] := List.eq_nil_of_length_eq_zero hlen
    subst ht
    rw [hcp.acp_nil] at hu
    cases hu
    rfl
  · rw [if_neg hlen, hu]
    rfl

namespace WingString

theorem Holds.length {s : WingString} {x : Content} (h : s.Holds x) : s.length = x.length := by
  unfold WingString.length
  rw [h.type, h.size]
  cases x with
  | unknown => rfl
  | char t =>
    show ulongPred (t ++ [0]).length = t.length
    rw [ulongPred_of_pos (by simp)]
    simp
  | wchar t =>
    show ulongPred ((narrow (t ++ [0])).length / 2) = t.length
    rw [length_narrow, Nat.mul_div_cancel_left _ (by decide), ulongPred_of_pos (by simp)]
    simp

/-! ## The three ways to join -/

theorem fill_has (y : Content) (rest : List UInt8) :
    ∃ s', fill (some (y.bytes ++ rest)) y.bytes.length y.type = .ok s' ∧ s'.Has y := by
  rw [fill, memcpy_malloc y.bytes rest (Nat.le_refl _), ok_bind]
  refine ⟨_, rfl, rfl, rfl, fun _ => ⟨[], ?_⟩⟩
  simp [malloc]

theorem fill_holds {y : Content} (hy : y.NulFree) (rest : List UInt8) :
    ∃ s', fill (some (y.bytes ++ rest)) y.bytes.length y.type = .ok s' ∧ s'.Holds y := by
  obtain ⟨s', hfill, hs'⟩ := fill_has y rest
  exact ⟨s', hfill, hs'.holds hy⟩

/-- **`memcpy`.**  Onto a `CHAR` string, with the size of the bytes occupied. -/
theorem catChar_has {s : WingString} {x : List UInt8} (hs : s.Has (.char x)) (y rest : List UInt8) :
    ∃ s', s.catChar (some ((Content.char y).bytes ++ rest)) (Content.char y).bytes.length = .ok s' ∧
      s'.Has (.char (x ++ y)) := by
  obtain ⟨old, hstr⟩ := hs.block (by simp)
  have hx : s.strSize = x.length + 1 := by
    rw [hs.size]
    simp [Content.bytes]
  have hpred : ulongPred s.strSize = x.length := by
    rw [ulongPred_of_pos (by omega), hx]
    omega
  have hlen : (Content.char y).bytes.length = y.length + 1 := by simp [Content.bytes]
  have hleft : s.strSize + (Content.char y).bytes.length - 1 - x.length = y.length + 1 := by omega
  have hfirst : memcpy (malloc (s.strSize + (Content.char y).bytes.length - 1)) 0 s.str x.length =
      .ok (x ++ malloc (y.length + 1)) := by
    rw [hstr, show (Content.char x).bytes ++ old = x ++ ([0] ++ old) from List.append_assoc _ _ _,
      memcpy_malloc x _ (by omega), hleft]
  have hsecond : memcpy (x ++ malloc (y.length + 1)) x.length
      (some ((Content.char y).bytes ++ rest)) (Content.char y).bytes.length =
      .ok (x ++ (y ++ [0])) := by
    rw [memcpy_append _ (by simp [hlen])]
    rw [List.take_left, List.drop_eq_nil_of_le (by simp [hlen]), List.append_nil]
    rfl
  rw [catChar, hpred]
  simp only [hfirst, ok_bind, hsecond]
  refine ⟨_, rfl, rfl, ?_, fun _ => ⟨[], ?_⟩⟩
  · show s.strSize + (Content.char y).bytes.length - 1 = (x ++ y ++ [0]).length
    simp only [List.length_append, List.length_singleton]
    omega
  · simp [Content.bytes]

theorem catChar_holds {s : WingString} {x y : List UInt8} (hs : s.Holds (.char x)) (hy : 0 ∉ y)
    (rest : List UInt8) :
    ∃ s', s.catChar (some ((Content.char y).bytes ++ rest)) (Content.char y).bytes.length = .ok s' ∧
      s'.Holds (.char (x ++ y)) := by
  obtain ⟨s', hcat, hs'⟩ := catChar_has hs.has y rest
  refine ⟨s', hcat, hs'.holds ?_⟩
  show 0 ∉ x ++ y
  rw [List.mem_append, not_or]
  exact ⟨hs.nulFree, hy⟩

/-- What `wsprintfW` leaves in a cleared block of `k` units. -/
theorem wsprintfW_cleared (x y : List UInt16) {k : Nat} (hk : x.length + y.length < k) :
    wsprintfW x y ++ malloc (k - (wsprintfW x y).length) =
      (x ++ y).take wsprintfLimit ++ malloc (k - min wsprintfLimit (x ++ y).length) := by
  have hlen : (x ++ y).length = x.length + y.length := List.length_append
  rw [length_wsprintfW, wsprintfW, List.take_append]
  by_cases hle : wsprintfLimit ≤ (x ++ y).length
  · rw [Nat.sub_eq_zero_of_le hle, List.take_zero, List.append_nil, Nat.min_eq_left hle,
      Nat.min_eq_left (by omega)]
  · have hone : [(0 : UInt16)].take (wsprintfLimit - (x ++ y).length) = [0] :=
      List.take_of_length_le (by simp; omega)
    have hroom : k - min wsprintfLimit (x ++ y).length = k - min wsprintfLimit (x.length + y.length + 1) + 1 := by
      omega
    rw [hone, List.append_assoc, hroom]
    rfl

/-- **`wsprintfW`.**  Onto a `WCHAR` string: the two texts, up to the limit, in a cleared block. -/
theorem catWchar_eq {s : WingString} {x : List UInt16} (hs : s.Has (.wchar x)) {buf : Ptr UInt8}
    {u : List UInt16} (hu : loadWide buf = .ok u) {m : Nat} (hm : u.length ≤ m) {n : Nat}
    (hn : n = 2 * (x.length + m + 1)) :
    s.catWchar buf n = .ok { str := some (narrow ((text x ++ u).take wsprintfLimit ++
      malloc (x.length + m + 1 - min wsprintfLimit (text x ++ u).length))), strSize := n, strType := .wchar } := by
  obtain ⟨old, hstr⟩ := hs.block (by simp)
  have hlen := length_wsprintfW (text x) u
  have htext := length_text_le x
  have hleft : n - (narrow (wsprintfW (text x) u)).length =
      2 * (x.length + m + 1 - (wsprintfW (text x) u).length) := by
    rw [length_narrow]
    omega
  rw [catWchar, hstr, loadWide_block, ok_bind, hu, ok_bind,
    store_malloc (by rw [length_narrow]; omega), ok_bind, hleft, ← narrow_malloc, ← narrow_append,
    wsprintfW_cleared _ _ (by omega)]

/-- With what is behind the NULs counted in the size. -/
theorem catWchar_has_iff {s : WingString} {x : List UInt16} (hs : s.Has (.wchar x)) (y : List UInt16)
    {buf : Ptr UInt8} (hbuf : loadWide buf = .ok (text y)) {n : Nat} (hn : n = 2 * (x.length + y.length + 1)) :
    ∃ s', s.catWchar buf n = .ok s' ∧ s'.strType = .wchar ∧ s'.strSize = n ∧
      (s'.Has (.wchar (x ++ y)) ↔ Cleared (x ++ y) ∧ (text (x ++ y)).length ≤ wsprintfLimit) := by
  refine ⟨_, catWchar_eq hs hbuf (length_text_le y) hn, rfl, rfl, ?_⟩
  rw [← List.length_append, ← take_texts_iff]
  have hbytes : n = (Content.wchar (x ++ y)).bytes.length := by
    rw [hn, Content.bytes, length_narrow]
    simp [Nat.add_assoc]
  constructor
  · intro h
    obtain ⟨more, hblock⟩ := h.block (by simp)
    have hnil : more = [] := by
      have hl := congrArg (Option.map List.length) hblock
      have htexts : (text x ++ text y).length ≤ (x ++ y).length := by
        rw [List.length_append, List.length_append]
        exact Nat.add_le_add (length_text_le x) (length_text_le y)
      apply List.eq_nil_of_length_eq_zero
      simp only [Option.map_some, Option.some.injEq, Content.bytes, List.length_append, length_narrow,
        List.length_take, length_malloc, List.length_singleton] at hl htexts
      omega
    rw [hnil, List.append_nil] at hblock
    exact narrow_inj.mp (Option.some.inj hblock)
  · intro h
    refine ⟨rfl, hbytes, fun _ => ⟨[], ?_⟩⟩
    rw [h, List.append_nil]
    rfl

theorem catWchar_holds_iff {s : WingString} {x y : List UInt16} (hs : s.Holds (.wchar x))
    (hy : 0 ∉ y) (rest : List UInt8) {n : Nat} (hn : n = 2 * (x.length + y.length + 1)) :
    ∃ s', s.catWchar (some ((Content.wchar y).bytes ++ rest)) n = .ok s' ∧
      s'.length = x.length + y.length ∧
      (s'.Holds (.wchar (x ++ y)) ↔ x.length + y.length ≤ wsprintfLimit) := by
  obtain ⟨s', hcat, htype, hsize, hiff⟩ := catWchar_has_iff hs.has y (loadWide_block y rest) hn
  have hfree : 0 ∉ x ++ y := by
    rw [List.mem_append, not_or]
    exact ⟨hs.nulFree, hy⟩
  obtain ⟨hcleared, htext⟩ := cleared_of_not_mem hfree
  refine ⟨s', hcat, ?_, ?_⟩
  · rw [WingString.length, htype, hsize, hn]
    show ulongPred (2 * (x.length + y.length + 1) / 2) = x.length + y.length
    rw [Nat.mul_div_cancel_left _ (by decide), ulongPred_of_pos (by omega)]
    omega
  · rw [← List.length_append, ← htext, htext]
    constructor
    · intro h
      have hle := (hiff.mp h.has).2
      rwa [htext] at hle
    · intro h
      refine (hiff.mpr ⟨hcleared, ?_⟩).holds hfree
      rwa [htext]

/-! ## `append` -/

/-- An `append` onto `x` of what converts to `y` goes through, with the right length, and joins
the two up to the limit. -/
def Joins (r : Except Fault WingString) (x y : Content) : Prop :=
  ∃ s', r = .ok s' ∧ s'.length = x.length + y.length ∧
    (s'.Holds (x.append y) ↔
      (x.type = .wchar → y ≠ .unknown → x.length + y.length ≤ wsprintfLimit))

theorem Joins.of_holds {r : Except Fault WingString} {s' : WingString} {x y : Content}
    (hr : r = .ok s') (h : s'.Holds (x.append y)) (hlen : (x.append y).length = x.length + y.length)
    (hxy : x.type = .wchar → y = .unknown) : Joins r x y := by
  refine ⟨s', hr, h.length.trans hlen, fun _ hx hy => absurd (hxy hx) hy, fun _ => h⟩

theorem sizeOr_occupied {size : Int} {n : Nat} (hn : 0 < n) (h : size ≤ 0 ∨ size = n) :
    sizeOr size (.ok n) = .ok n := by
  rcases h with h | rfl
  · rw [sizeOr, if_pos h]
  · exact sizeOr_of_pos hn _

variable {cp : CodePages} {s : WingString} {x : Content}

theorem appendChar_joins (hcp : cp.Total) (hs : s.Holds x) {t : List UInt8} (ht : 0 ∉ t)
    (rest : List UInt8) {size : Int} (hsize : size ≤ 0 ∨ size = (Content.char t).bytes.length) :
    ∃ y, (Content.char t).convert cp x.type = some y ∧
      Joins (s.appendChar cp (some ((Content.char t).bytes ++ rest)) size) x y := by
  have hpos : 0 < (Content.char t).bytes.length := by simp [Content.bytes]
  rw [appendChar, if_neg (by simp), wingCharSize_bytes ht, sizeOr_occupied hpos hsize, ok_bind,
    hs.type]
  cases x with
  | unknown =>
    obtain ⟨s', hr, hs'⟩ := fill_holds (y := .char t) ht rest
    exact ⟨.char t, rfl, .of_holds hr hs' (Nat.zero_add _).symm (by simp [Content.type])⟩
  | char x =>
    obtain ⟨s', hr, hs'⟩ := catChar_holds hs ht rest
    exact ⟨.char t, rfl, .of_holds hr hs' List.length_append (by simp [Content.type])⟩
  | wchar x =>
    obtain ⟨u, hu⟩ := hcp.acp t
    have hfree := hcp.acp_nulFree t u ht hu
    refine ⟨.wchar u, by simp [Content.convert, Content.type, hu], ?_⟩
    have hconv := wingStrCharToWchar_bytes hcp ht hu rest
    have hlen := wingWcharSize_bytes hfree []
    rw [List.append_nil] at hlen
    have hn : (Content.wchar u).bytes.length - wcharSize + s.strSize =
        2 * (x.length + u.length + 1) := by
      rw [hs.size]
      simp only [Content.bytes, length_narrow, List.length_append, List.length_singleton, wcharSize]
      omega
    obtain ⟨s', hr, hl, hiff⟩ := catWchar_holds_iff hs hfree [] hn
    rw [List.append_nil] at hr
    refine ⟨s', ?_, hl, ?_⟩
    · show (do
        let buf ← wingStrCharToWchar cp (some ((Content.char t).bytes ++ rest))
        let len ← wingWcharSize buf
        s.catWchar buf (len - wcharSize + s.strSize)) = _
      rw [hconv, ok_bind, hlen, ok_bind, hr]
    · exact hiff.trans ⟨fun h _ _ => h, fun h => h rfl (by simp)⟩

theorem appendWchar_joins (hcp : cp.Total) (hs : s.Holds x) {t : List UInt16} (ht : 0 ∉ t)
    (rest : List UInt8) {size : Int} (hsize : size ≤ 0 ∨ size = (Content.wchar t).bytes.length) :
    ∃ y, (Content.wchar t).convert cp x.type = some y ∧
      Joins (s.appendWchar cp (some ((Content.wchar t).bytes ++ rest)) size) x y := by
  have hpos : 0 < (Content.wchar t).bytes.length := by simp [Content.bytes]
  rw [appendWchar, if_neg (by simp), wingWcharSize_bytes ht, sizeOr_occupied hpos hsize, ok_bind,
    hs.type]
  cases x with
  | unknown =>
    obtain ⟨s', hr, hs'⟩ := fill_holds (y := .wchar t) ht rest
    exact ⟨.wchar t, rfl, .of_holds hr hs' (Nat.zero_add _).symm (by simp [Content.type])⟩
  | char x =>
    obtain ⟨u, hu⟩ := hcp.oem t
    have hfree := hcp.oem_nulFree t u ht hu
    refine ⟨.char u, by simp [Content.convert, Content.type, hu], ?_⟩
    have hconv := wingStrWcharToChar_bytes ht hu rest
    have hlen := wingCharSize_bytes hfree []
    obtain ⟨s', hr, hs'⟩ := catChar_holds hs hfree []
    rw [List.append_nil] at hlen hr
    refine .of_holds ?_ hs' List.length_append (by simp [Content.type])
    show (do
      let res ← wingStrWcharToChar cp (some ((Content.wchar t).bytes ++ rest))
      let len ← wingCharSize res
      s.catChar res len) = _
    rw [hconv, ok_bind, hlen, ok_bind, hr]
  | wchar x =>
    have hn : s.strSize + (Content.wchar t).bytes.length - wcharSize =
        2 * (x.length + t.length + 1) := by
      rw [hs.size]
      simp only [Content.bytes, length_narrow, List.length_append, List.length_singleton, wcharSize]
      omega
    obtain ⟨s', hr, hl, hiff⟩ := catWchar_holds_iff hs ht rest hn
    exact ⟨.wchar t, rfl, s', hr, hl, hiff.trans ⟨fun h _ _ => h, fun h => h rfl (by simp)⟩⟩

theorem append_unknown (x : Content) : x.append .unknown = x := by
  cases x <;> rfl

/-- Nothing is appended. -/
theorem Holds.joins_unknown (hs : s.Holds x) : Joins (.ok s) x .unknown :=
  .of_holds rfl ((append_unknown x).symm ▸ hs) (congrArg Content.length (append_unknown x))
    fun _ => rfl

theorem appendStr_joins (hcp : cp.Total) (hs : s.Holds x) {t : WingString} {y : Content}
    (ht : t.Holds y) :
    ∃ y', y.convert cp x.type = some y' ∧ Joins (s.appendStr cp t) x y' := by
  have hsize := ht.size
  cases y with
  | unknown =>
    have htype : t.strType = .unknown := ht.type
    refine ⟨.unknown, by cases x <;> rfl, ?_⟩
    cases x with
    | unknown =>
      have hst : s.strType = .unknown := hs.type
      have hfill : s.appendStr cp t = .ok { str := some [], strSize := 0, strType := .unknown } := by
        rw [appendStr, hst, htype, show t.strSize = 0 from hsize]
        rfl
      exact .of_holds hfill ⟨rfl, rfl, trivial, fun h => absurd rfl h⟩ rfl (by simp [Content.type])
    | char x =>
      have hst : s.strType = .char := hs.type
      rw [appendStr, hst, htype]
      exact hs.joins_unknown
    | wchar x =>
      have hst : s.strType = .wchar := hs.type
      rw [appendStr, hst, htype]
      exact hs.joins_unknown
  | char t' =>
    obtain ⟨rest, hstr⟩ := ht.block (by simp)
    rw [appendStr_char cp s ht.type (by simp [hstr]) (by rw [hsize]; simp [Content.bytes]), hstr, hsize]
    exact appendChar_joins hcp hs ht.nulFree rest (.inr rfl)
  | wchar t' =>
    obtain ⟨rest, hstr⟩ := ht.block (by simp)
    rw [appendStr_wchar cp s ht.type (by simp [hstr]) (by rw [hsize]; simp [Content.bytes]), hstr, hsize]
    exact appendWchar_joins hcp hs ht.nulFree rest (.inr rfl)

/-- **`append` joins the receiver's content and the argument's, converted**, exactly up to the
limit of `wsprintfW` on a `WCHAR` receiver; the length is right in any case, and `NULL` or a string
without a type leave the content as it is. -/
theorem append_holds_iff (hcp : cp.Total) (hs : s.Holds x) {a : Arg} {y : Content}
    (ha : a.Denotes y) :
    ∃ s' y', s.append cp a = .ok s' ∧ y.convert cp x.type = some y' ∧
      s'.length = x.length + y'.length ∧
      (s'.Holds (x.append y') ↔
        (x.type = .wchar → y' ≠ .unknown → x.length + y'.length ≤ wsprintfLimit)) ∧
      (y = .unknown → s'.Holds x) := by
  have hmain : ∃ y', y.convert cp x.type = some y' ∧ Joins (s.append cp a) x y' := by
    cases a with
    | char str size =>
      cases str with
      | none =>
        cases ha
        exact ⟨.unknown, by cases x <;> rfl, hs.joins_unknown⟩
      | some mem =>
        obtain ⟨t, rest, rfl, ht, rfl, hsize⟩ := ha
        exact appendChar_joins hcp hs ht rest hsize
    | wchar str size =>
      cases str with
      | none =>
        cases ha
        exact ⟨.unknown, by cases x <;> rfl, hs.joins_unknown⟩
      | some mem =>
        obtain ⟨t, rest, rfl, ht, rfl, hsize⟩ := ha
        exact appendWchar_joins hcp hs ht rest hsize
    | str t => exact appendStr_joins hcp hs ha
  obtain ⟨y', hy', s', hr, hlen, hiff⟩ := hmain
  refine ⟨s', y', hr, hy', hlen, hiff, ?_⟩
  rintro rfl
  have hnone : y' = .unknown := by
    cases x <;> exact (Option.some.inj hy').symm
  subst hnone
  have hjoin := hiff.mpr fun _ h => absurd rfl h
  rwa [append_unknown] at hjoin

end WingString

/-! ## On a code page of ASCII -/

/-- A character outside ASCII becomes a question mark. -/
def toAscii (c : UInt16) : UInt8 := if c.toNat < 128 then UInt8.ofNat c.toNat else 63

def asciiPages : CodePages where
  acpToWide t := some (t.map UInt8.toUInt16)
  wideToOem t := some (t.map toAscii)
  wideToUtf8 t := some (t.map toAscii)

theorem toAscii_ne_zero {c : UInt16} (h : c ≠ 0) : toAscii c ≠ 0 := by
  have hpos : c.toNat ≠ 0 := fun hc => h (UInt16.toNat_inj.mp hc)
  unfold toAscii
  split
  · intro heq
    have hzero := congrArg UInt8.toNat heq
    rw [UInt8.toNat_ofNat', Nat.mod_eq_of_lt (by omega)] at hzero
    exact hpos hzero
  · decide

theorem asciiPages_total : asciiPages.Total where
  acp t := ⟨_, rfl⟩
  oem t := ⟨_, rfl⟩
  acp_nil := rfl
  acp_nulFree := by
    intro t u ht hu
    cases hu
    intro hmem
    obtain ⟨b, hb, hzero⟩ := List.mem_map.mp hmem
    have hb0 : b = 0 := by
      apply UInt8.toNat_inj.mp
      rw [← UInt8.toNat_toUInt16, hzero]
      rfl
    exact ht (hb0 ▸ hb)
  oem_nulFree := by
    intro t u ht hu
    cases hu
    intro hmem
    obtain ⟨c, hc, hzero⟩ := List.mem_map.mp hmem
    by_cases hc0 : c = 0
    · exact ht (hc0 ▸ hc)
    · exact toAscii_ne_zero hc0 hzero

/-- `L"ab"` and `"c"`. -/
theorem append_ab_c :
    ∃ s', (WingString.mk (some [97, 0, 98, 0, 0, 0]) 6 .wchar).append asciiPages
        (.char (some [99, 0]) 2) = .ok s' ∧ s'.length = 3 ∧ s'.Holds (.wchar [97, 98, 99]) := by
  have hs : (WingString.mk (some [97, 0, 98, 0, 0, 0]) 6 .wchar).Holds (.wchar [97, 98]) :=
    ⟨rfl, rfl, show 0 ∉ ([97, 98] : List UInt16) by decide, fun _ => ⟨[], rfl⟩⟩
  have ha : (Arg.char (some [99, 0]) 2).Denotes (.char [99]) :=
    ⟨[99], [], rfl, by decide, rfl, .inr rfl⟩
  obtain ⟨s', y', hr, hy', hlen, hiff, -⟩ := WingString.append_holds_iff asciiPages_total hs ha
  cases hy'
  exact ⟨s', hr, hlen, hiff.mpr fun _ _ => by decide⟩

/-- Behind 1024 letters a `WCHAR` string loses what is appended, and still counts it. -/
theorem append_cut :
    ∃ s s' : WingString, s.Holds (.wchar (List.replicate 1024 97)) ∧
      s.append asciiPages (.wchar (some [98, 0, 0, 0]) 0) = .ok s' ∧ s'.length = 1025 ∧
      ¬ s'.Holds (.wchar (List.replicate 1024 97 ++ [98])) := by
  have hfree : (0 : UInt16) ∉ List.replicate 1024 97 := by
    intro h
    cases List.eq_of_mem_replicate h
  have hs : (WingString.mk (some (Content.wchar (List.replicate 1024 97)).bytes) 2050 .wchar).Holds
      (.wchar (List.replicate 1024 97)) := by
    refine ⟨rfl, ?_, hfree, fun _ => ⟨[], (congrArg some (List.append_nil _)).symm⟩⟩
    rw [Content.bytes, length_narrow, List.length_append, List.length_replicate]
    rfl
  obtain ⟨y, hy, s', hr, hlen, hiff⟩ := WingString.appendWchar_joins asciiPages_total hs (t := [98])
    (by decide) [] (.inl (Int.le_refl 0))
  cases hy
  refine ⟨_, s', hs, hr, ?_, ?_⟩
  · rw [hlen, Content.length, List.length_replicate]
    rfl
  · intro h
    have hle := hiff.mp h rfl (by simp)
    rw [Content.length, List.length_replicate] at hle
    exact absurd hle (by decide)

end WingPhp.Strings
