import WingPhp.WingString.Invariant
import WingPhp.WingString.Compare

/-!
# The readers stay inside the block

Under the invariant `copy`, `c_str` and `w_str` go through, and no comparison leaves a block
(`Inside`), with a literal that is terminated or `NULL` or with another such string.  A comparison
can still follow `NULL`: a `NULL` literal, or a conversion that failed.
-/

namespace WingPhp.Strings

open Memory

namespace WingString

variable {s : WingString}

theorem Inv.copy_ok (hs : s.Inv) : ∃ p, s.copy = .ok p := by
  cases htype : s.strType with
  | unknown => exact ⟨none, hs.copy_unknown htype⟩
  | char =>
    obtain ⟨block, h, -⟩ := hs.copy_char htype
    exact ⟨_, h⟩
  | wchar =>
    obtain ⟨block, h, -⟩ := hs.copy_wchar htype
    exact ⟨_, h⟩

theorem Inv.loadText_ok (hs : s.Inv) (htype : s.strType = .char) : ∃ x, loadText s.str = .ok x := by
  obtain ⟨mem, hstr, hinv⟩ := hs.char htype
  refine ⟨text mem, ?_⟩
  rw [hstr, loadText, if_pos (List.mem_of_getLast? hinv.last)]

theorem Inv.loadWide_ok (hs : s.Inv) (htype : s.strType = .wchar) : ∃ x, loadWide s.str = .ok x := by
  obtain ⟨mem, hstr, hinv⟩ := hs.wchar htype
  refine ⟨text (wide mem), ?_⟩
  rw [hstr, loadWide, Option.map_some, loadText, if_pos (List.mem_of_getLast? hinv.last)]

end WingString

/-- This does not leave a block. -/
def Inside {α : Type} (r : Except Fault α) : Prop := r ≠ .error .outside

theorem inside_ok {α : Type} (a : α) : Inside (.ok a : Except Fault α) := nofun

theorem inside_bind {α β : Type} {x : Except Fault α} {f : α → Except Fault β} (hx : Inside x)
    (hf : ∀ a, x = .ok a → Inside (f a)) : Inside (x >>= f) := by
  cases x with
  | error e =>
    intro h
    apply hx
    rw [error_bind] at h
    cases h
    rfl
  | ok a => exact hf a rfl

theorem inside_of_ok {α : Type} {r : Except Fault α} (h : ∃ a, r = .ok a) : Inside r := by
  obtain ⟨a, rfl⟩ := h
  exact inside_ok a

/-- A block with a NUL in it holds a text. -/
theorem inside_loadText {mem : List UInt8} (h : 0 ∈ mem) : Inside (loadText (some mem)) := by
  rw [loadText, if_pos h]
  exact inside_ok _

theorem inside_loadWide {mem : List UInt8} (h : 0 ∈ wide mem) : Inside (loadWide (some mem)) := by
  rw [loadWide, Option.map_some, loadText, if_pos h]
  exact inside_ok _

theorem WingString.Inv.inside_text {s : WingString} (hs : s.Inv) (htype : s.strType = .char) :
    Inside (loadText s.str) := inside_of_ok (hs.loadText_ok htype)

theorem WingString.Inv.inside_wide {s : WingString} (hs : s.Inv) (htype : s.strType = .wchar) :
    Inside (loadWide s.str) := inside_of_ok (hs.loadWide_ok htype)

theorem inside_strcmp {str1 str2 : Ptr UInt8} (h1 : Inside (loadText str1))
    (h2 : Inside (loadText str2)) : Inside (strcmp str1 str2) :=
  inside_bind h1 fun _ _ => inside_bind h2 fun _ _ => inside_ok _

theorem inside_wcscmp {str1 str2 : Ptr UInt8} (h1 : Inside (loadWide str1))
    (h2 : Inside (loadWide str2)) : Inside (wcscmp str1 str2) :=
  inside_bind h1 fun _ _ => inside_bind h2 fun _ _ => inside_ok _

theorem inside_wcharToChar (cp : CodePages) {str : Ptr UInt8} (h : Inside (loadWide str)) :
    Inside (wingStrWcharToChar cp str) := by
  cases str with
  | none => exact inside_ok _
  | some mem =>
    refine inside_bind h fun t _ => ?_
    cases cp.wideToOem t <;> exact inside_ok _

theorem inside_charToWchar (cp : CodePages) {str : Ptr UInt8} (h : Inside (loadText str)) :
    Inside (wingStrCharToWchar cp str) :=
  inside_bind h fun _ _ => inside_ok _

/-- What a conversion makes is terminated. -/
theorem inside_of_wcharToChar {cp : CodePages} {str res : Ptr UInt8}
    (h : wingStrWcharToChar cp str = .ok res) : Inside (loadText res) := by
  cases str with
  | none =>
    cases h
    nofun
  | some mem =>
    obtain ⟨t, -, h⟩ := bind_eq_ok.mp h
    split at h
    · cases h
      nofun
    · cases h
      exact inside_loadText (by simp)

theorem inside_of_charToWchar {cp : CodePages} {str res : Ptr UInt8}
    (h : wingStrCharToWchar cp str = .ok res) : Inside (loadWide res) := by
  obtain ⟨t, -, h⟩ := bind_eq_ok.mp h
  cases h
  apply inside_loadWide
  rw [wide_narrow]
  simp

section Comparisons

variable {cp : CodePages} {s t : WingString} {str : Ptr UInt8}

theorem inside_orderChar (hs : s.Inv) (hstr : Inside (loadText str)) (unknow : Bool)
    (test : Int → Bool) : Inside (s.orderChar cp str unknow test) := by
  unfold WingString.orderChar
  cases htype : s.strType with
  | unknown => exact inside_ok _
  | char =>
    have hx := hs.inside_text htype
    exact inside_bind (inside_strcmp hx hstr) fun _ _ => inside_ok _
  | wchar =>
    have hx := hs.inside_wide htype
    refine inside_bind (inside_wcharToChar cp hx) fun res hres => ?_
    exact inside_bind (inside_strcmp (inside_of_wcharToChar hres) hstr) fun _ _ => inside_ok _

theorem inside_eqChar (hs : s.Inv) (hstr : Inside (loadText str)) : Inside (s.eqChar cp str) := by
  unfold WingString.eqChar
  cases htype : s.strType with
  | unknown => exact inside_ok _
  | char =>
    have hx := hs.inside_text htype
    exact inside_bind (inside_strcmp hx hstr) fun _ _ => inside_ok _
  | wchar =>
    have hx := hs.inside_wide htype
    refine inside_bind (inside_charToWchar cp hstr) fun res hres => ?_
    exact inside_bind (inside_wcscmp hx (inside_of_charToWchar hres)) fun _ _ => inside_ok _

theorem inside_orderWchar (hs : s.Inv) (hstr : Inside (loadWide str)) (unknow : Bool)
    (test : Int → Bool) : Inside (s.orderWchar cp str unknow test) := by
  unfold WingString.orderWchar
  cases htype : s.strType with
  | unknown => exact inside_ok _
  | char =>
    have hx := hs.inside_text htype
    refine inside_bind (inside_charToWchar cp hx) fun res hres => ?_
    exact inside_bind (inside_wcscmp (inside_of_charToWchar hres) hstr) fun _ _ => inside_ok _
  | wchar =>
    have hx := hs.inside_wide htype
    exact inside_bind (inside_wcscmp hx hstr) fun _ _ => inside_ok _

theorem inside_eqWchar (hs : s.Inv) (hstr : Inside (loadWide str)) : Inside (s.eqWchar cp str) := by
  unfold WingString.eqWchar
  cases htype : s.strType with
  | unknown => exact inside_ok _
  | char =>
    have hx := hs.inside_text htype
    refine inside_bind (inside_wcharToChar cp hstr) fun res hres => ?_
    exact inside_bind (inside_strcmp hx (inside_of_wcharToChar hres)) fun _ _ => inside_ok _
  | wchar =>
    have hx := hs.inside_wide htype
    exact inside_bind (inside_wcscmp hx hstr) fun _ _ => inside_ok _

/-- On a string of a known type the orders are those on its text. -/
theorem orderStr_char (htype : t.strType = .char) (argUnknow thisUnknow : Bool) (test : Int → Bool) :
    s.orderStr cp t argUnknow thisUnknow test = s.orderChar cp t.str thisUnknow test := by
  rw [WingString.orderStr, htype, WingString.orderChar]
  cases s.strType <;> rfl

theorem orderStr_wchar (htype : t.strType = .wchar) (argUnknow thisUnknow : Bool)
    (test : Int → Bool) :
    s.orderStr cp t argUnknow thisUnknow test = s.orderWchar cp t.str thisUnknow test := by
  rw [WingString.orderStr, htype, WingString.orderWchar]
  cases s.strType <;> rfl

theorem inside_orderStr (hs : s.Inv) (ht : t.Inv) (argUnknow thisUnknow : Bool)
    (test : Int → Bool) : Inside (s.orderStr cp t argUnknow thisUnknow test) := by
  cases htype : t.strType with
  | unknown =>
    rw [WingString.orderStr, htype]
    exact inside_ok _
  | char =>
    rw [orderStr_char htype]
    exact inside_orderChar hs (ht.inside_text htype) _ _
  | wchar =>
    rw [orderStr_wchar htype]
    exact inside_orderWchar hs (ht.inside_wide htype) _ _

theorem inside_eqStr (hs : s.Inv) (ht : t.Inv) : Inside (s.eqStr cp t) := by
  unfold WingString.eqStr
  cases htype : t.strType with
  | unknown => exact inside_ok _
  | char =>
    have hy := ht.inside_text htype
    cases hstype : s.strType with
    | unknown => exact inside_ok _
    | char =>
      have hx := hs.inside_text hstype
      exact inside_bind (inside_strcmp hx hy) fun _ _ => inside_ok _
    | wchar =>
      have hx := hs.inside_wide hstype
      refine inside_bind (inside_wcharToChar cp hx) fun res hres => ?_
      exact inside_bind (inside_strcmp hy (inside_of_wcharToChar hres)) fun _ _ => inside_ok _
  | wchar =>
    have hy := ht.inside_wide htype
    cases hstype : s.strType with
    | unknown => exact inside_ok _
    | char =>
      have hx := hs.inside_text hstype
      refine inside_bind (inside_charToWchar cp hx) fun res hres => ?_
      exact inside_bind (inside_wcscmp hy (inside_of_charToWchar hres)) fun _ _ => inside_ok _
    | wchar =>
      have hx := hs.inside_wide hstype
      exact inside_bind (inside_wcscmp hx hy) fun _ _ => inside_ok _

end Comparisons

/-! ## All readers -/

def charComparisons : List (CodePages → WingString → Ptr UInt8 → Except Fault Bool) :=
  [WingString.ltChar, WingString.leChar, WingString.gtChar, WingString.geChar, WingString.eqChar,
    WingString.neChar]

def wcharComparisons : List (CodePages → WingString → Ptr UInt8 → Except Fault Bool) :=
  [WingString.ltWchar, WingString.leWchar, WingString.gtWchar, WingString.geWchar,
    WingString.eqWchar, WingString.neWchar]

def strComparisons : List (CodePages → WingString → WingString → Except Fault Bool) :=
  [WingString.ltStr, WingString.leStr, WingString.gtStr, WingString.geStr, WingString.eqStr,
    WingString.neStr]

/-- `sizeof` of a unit. -/
def StrType.unitSize : StrType → Nat
  | .char => 1
  | .wchar => wcharSize
  | .unknown => 0

/-- No reader of the string leaves a block, and `length()` counts all units but the last. -/
structure WingString.Reads (cp : CodePages) (s : WingString) : Prop where
  length : (s.length + 1) * s.strType.unitSize = s.strSize
  unknown : s.strType = .unknown → s.length = 0
  copy : ∃ p, s.copy = .ok p
  cStr : ∃ p, s.cStr cp = .ok p
  wStr : ∃ p, s.wStr cp = .ok p
  char : ∀ f ∈ charComparisons, ∀ str, Inside (loadText str) → Inside (f cp s str)
  wchar : ∀ f ∈ wcharComparisons, ∀ str, Inside (loadWide str) → Inside (f cp s str)
  str : ∀ f ∈ strComparisons, ∀ t : WingString, t.Inv → Inside (f cp s t)

variable {cp : CodePages} {s : WingString}

theorem wcharToChar_ok {str : Ptr UInt8} (h : ∃ x, loadWide str = .ok x) :
    ∃ p, wingStrWcharToChar cp str = .ok p := by
  obtain ⟨x, hx⟩ := h
  cases str with
  | none => exact ⟨none, rfl⟩
  | some mem =>
    rw [wingStrWcharToChar, hx, ok_bind]
    cases cp.wideToOem x with
    | none => exact ⟨none, rfl⟩
    | some res => exact ⟨some (res ++ [0]), rfl⟩

theorem charToWchar_ok {str : Ptr UInt8} (h : ∃ x, loadText str = .ok x) :
    ∃ p, wingStrCharToWchar cp str = .ok p := by
  obtain ⟨x, hx⟩ := h
  rw [wingStrCharToWchar, hx]
  exact ⟨_, rfl⟩

theorem inside_not {r : Except Fault Bool} (h : Inside r) :
    Inside (do let b ← r; .ok (!b)) := inside_bind h fun _ _ => inside_ok _

theorem WingString.Inv.length_units (hs : s.Inv) :
    (s.length + 1) * s.strType.unitSize = s.strSize := by
  unfold WingString.length
  cases htype : s.strType with
  | unknown => exact (hs.unknown htype).symm
  | char =>
    obtain ⟨mem, -, hinv⟩ := hs.char htype
    have hpos := hinv.pos
    show (ulongPred s.strSize + 1) * 1 = s.strSize
    rw [ulongPred_of_pos hpos]
    omega
  | wchar =>
    obtain ⟨mem, -, hinv⟩ := hs.wchar htype
    have heven := hinv.even
    have hpos : 0 < (wide mem).length := List.length_pos_of_mem (List.mem_of_getLast? hinv.last)
    rw [length_wide, ← hinv.whole] at hpos
    simp only [wcharSize] at heven
    show (ulongPred (s.strSize / 2) + 1) * 2 = s.strSize
    rw [ulongPred_of_pos hpos]
    omega

theorem WingString.Inv.reads (hs : s.Inv) : s.Reads cp where
  length := hs.length_units
  unknown htype := by rw [WingString.length, htype]
  copy := hs.copy_ok
  cStr := by
    unfold WingString.cStr
    cases htype : s.strType with
    | unknown => exact ⟨none, rfl⟩
    | char => exact hs.copy_ok
    | wchar => exact wcharToChar_ok (hs.loadWide_ok htype)
  wStr := by
    unfold WingString.wStr
    cases htype : s.strType with
    | unknown => exact ⟨none, rfl⟩
    | char => exact charToWchar_ok (hs.loadText_ok htype)
    | wchar => exact hs.copy_ok
  char := by
    intro f hf str hstr
    simp only [charComparisons, List.mem_cons, List.not_mem_nil, or_false] at hf
    rcases hf with rfl | rfl | rfl | rfl | rfl | rfl
    · exact inside_orderChar hs hstr _ _
    · exact inside_orderChar hs hstr _ _
    · exact inside_orderChar hs hstr _ _
    · exact inside_orderChar hs hstr _ _
    · exact inside_eqChar hs hstr
    · exact inside_not (inside_eqChar hs hstr)
  wchar := by
    intro f hf str hstr
    simp only [wcharComparisons, List.mem_cons, List.not_mem_nil, or_false] at hf
    rcases hf with rfl | rfl | rfl | rfl | rfl | rfl
    · exact inside_orderWchar hs hstr _ _
    · exact inside_orderWchar hs hstr _ _
    · exact inside_orderWchar hs hstr _ _
    · exact inside_orderWchar hs hstr _ _
    · exact inside_eqWchar hs hstr
    · exact inside_not (inside_eqWchar hs hstr)
  str := by
    intro f hf t ht
    simp only [strComparisons, List.mem_cons, List.not_mem_nil, or_false] at hf
    rcases hf with rfl | rfl | rfl | rfl | rfl | rfl
    · exact inside_orderStr hs ht _ _ _
    · exact inside_orderStr hs ht _ _ _
    · exact inside_orderStr hs ht _ _ _
    · exact inside_orderStr hs ht _ _ _
    · exact inside_eqStr hs ht
    · exact inside_not (inside_eqStr hs ht)

end WingPhp.Strings
