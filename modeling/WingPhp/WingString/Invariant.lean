import WingPhp.WingString.Append
import WingPhp.WingString.Trim

/-!
# The representation invariant

`WingString.Inv` says how `str_size` and the block belong together.  An operation gives its object
a new block of just `str_size` bytes that ends in a NUL (`Fresh`) or leaves it alone; only
`toUTF8` and `trim` let `str_size` fall behind the block, and they keep the invariant too.
-/

namespace WingPhp.Strings

open Memory

/-- `n` bytes at `str` can be read, and the last is a NUL. -/
def EndsIn (str : Ptr UInt8) (n : Nat) : Prop := (load str n).toOption.bind List.getLast? = some 0

/-- `n` bytes at `str` are units, can be read, and the last unit is a NUL. -/
def EndsInWide (str : Ptr UInt8) (n : Nat) : Prop :=
  n % wcharSize = 0 ∧ (load str n).toOption.bind (fun data => (wide data).getLast?) = some 0

instance (str : Ptr UInt8) (n : Nat) : Decidable (EndsIn str n) :=
  inferInstanceAs (Decidable (_ = _))

instance (str : Ptr UInt8) (n : Nat) : Decidable (EndsInWide str n) :=
  inferInstanceAs (Decidable (_ ∧ _))

theorem endsIn_iff {str : Ptr UInt8} {n : Nat} :
    EndsIn str n ↔ ∃ data, load str n = .ok data ∧ data.getLast? = some 0 := by
  unfold EndsIn
  cases load str n <;> simp [Except.toOption]

theorem endsInWide_iff {str : Ptr UInt8} {n : Nat} :
    EndsInWide str n ↔
      n % wcharSize = 0 ∧ ∃ data, load str n = .ok data ∧ (wide data).getLast? = some 0 := by
  unfold EndsInWide
  cases load str n <;> simp [Except.toOption]

/-! ## The invariant -/

/-- A `CHAR` block and its `str_size`. -/
structure CharInv (mem : List UInt8) (size : Nat) : Prop where
  pos : 0 < size
  fits : size ≤ mem.length
  ends : mem[size - 1]? = some 0
  last : mem.getLast? = some 0

/-- A `WCHAR` block and its `str_size`. -/
structure WcharInv (mem : List UInt8) (size : Nat) : Prop where
  whole : size = mem.length
  even : size % wcharSize = 0
  last : (wide mem).getLast? = some 0

namespace WingString

def Inv (s : WingString) : Prop :=
  match s.strType with
  | .unknown => s.strSize = 0
  | .char => ∃ mem, s.str = some mem ∧ CharInv mem s.strSize
  | .wchar => ∃ mem, s.str = some mem ∧ WcharInv mem s.strSize

theorem Inv.char {s : WingString} (hs : s.Inv) (htype : s.strType = .char) :
    ∃ mem, s.str = some mem ∧ CharInv mem s.strSize := by
  unfold Inv at hs
  rwa [htype] at hs

theorem Inv.wchar {s : WingString} (hs : s.Inv) (htype : s.strType = .wchar) :
    ∃ mem, s.str = some mem ∧ WcharInv mem s.strSize := by
  unfold Inv at hs
  rwa [htype] at hs

theorem Inv.unknown {s : WingString} (hs : s.Inv) (htype : s.strType = .unknown) :
    s.strSize = 0 := by
  unfold Inv at hs
  rwa [htype] at hs

/-- The block is of the size kept. -/
def Exact (s : WingString) : Prop := ∀ mem ∈ s.str, s.strSize = mem.length

/-- What a new block is like. -/
def Fresh (s : WingString) : Prop := s.Inv ∧ s.Exact

theorem fresh_char {mem : List UInt8} (h : mem.getLast? = some 0) :
    Fresh { str := some mem, strSize := mem.length, strType := .char } := by
  have hpos : 0 < mem.length := by
    apply List.length_pos_iff.mpr
    rintro rfl
    cases h
  refine ⟨⟨mem, rfl, hpos, Nat.le_refl _, ?_, h⟩, ?_⟩
  · rw [← List.getLast?_eq_getElem?, h]
  · rintro _ ⟨⟩
    rfl

theorem fresh_wchar {mem : List UInt8} (heven : mem.length % wcharSize = 0)
    (h : (wide mem).getLast? = some 0) :
    Fresh { str := some mem, strSize := mem.length, strType := .wchar } := by
  refine ⟨⟨mem, rfl, rfl, heven, h⟩, ?_⟩
  rintro _ ⟨⟩
  rfl

/-- `str_size` from `strlen` keeps the invariant on any block that ends in a NUL. -/
theorem inv_of_strlen {mem : List UInt8} {n : Nat} (hlast : mem.getLast? = some 0)
    (h : strlen (some mem) = .ok n) :
    Inv { str := some mem, strSize := n + 1, strType := .char } := by
  obtain ⟨t, ht, hn⟩ := bind_eq_ok.mp h
  cases hn
  obtain ⟨mem', hmem, hzero, rfl⟩ := loadText_eq_ok ht
  cases hmem
  exact ⟨mem, rfl, Nat.succ_pos _, length_text_lt hzero, getElem?_text hzero, hlast⟩

end WingString

/-! ## Sizes that count the terminator -/

theorem endsIn_charSize {str : Ptr UInt8} {n : Nat} (h : wingCharSize str = .ok n) : EndsIn str n := by
  obtain ⟨_, hlen, hn⟩ := bind_eq_ok.mp h
  obtain ⟨t, ht, hl⟩ := bind_eq_ok.mp hlen
  cases hl
  cases hn
  obtain ⟨mem, rfl, hzero, rfl⟩ := loadText_eq_ok ht
  have hle : (text mem).length + 1 ≤ mem.length := length_text_lt hzero
  refine endsIn_iff.mpr ⟨text mem ++ [0], ?_, by simp⟩
  rw [load_some hle, take_text hzero]

theorem endsInWide_wcharSize {str : Ptr UInt8} {n : Nat} (h : wingWcharSize str = .ok n) :
    EndsInWide str n := by
  obtain ⟨_, hlen, hn⟩ := bind_eq_ok.mp h
  obtain ⟨t, ht, hl⟩ := bind_eq_ok.mp hlen
  cases hl
  cases hn
  obtain ⟨units, hunits, hzero, rfl⟩ := loadText_eq_ok ht
  obtain ⟨mem, rfl, rfl⟩ := Option.map_eq_some_iff.mp hunits
  have hlt := length_text_lt hzero
  rw [length_wide] at hlt
  have hmul : ((text (wide mem)).length + 1) * wcharSize = 2 * ((text (wide mem)).length + 1) :=
    Nat.mul_comm _ _
  refine endsInWide_iff.mpr ⟨Nat.mul_mod_left _ _, mem.take (2 * ((text (wide mem)).length + 1)), ?_, ?_⟩
  · rw [hmul, load_some (by omega)]
  · rw [wide_take, take_text hzero]
    simp

/-- A `char` argument with a size that counts its terminator; one that is not positive is
replaced. -/
def CountsNul (str : Ptr UInt8) (size : Int) : Prop := size ≤ 0 ∨ EndsIn str size.toNat

def CountsWideNul (str : Ptr UInt8) (size : Int) : Prop := size ≤ 0 ∨ EndsInWide str size.toNat

instance (str : Ptr UInt8) (size : Int) : Decidable (CountsNul str size) :=
  inferInstanceAs (Decidable (_ ∨ _))

instance (str : Ptr UInt8) (size : Int) : Decidable (CountsWideNul str size) :=
  inferInstanceAs (Decidable (_ ∨ _))

theorem CountsNul.endsIn {str : Ptr UInt8} {size : Int} {n : Nat} (h : CountsNul str size)
    (hn : sizeOr size (wingCharSize str) = .ok n) : EndsIn str n := by
  unfold sizeOr at hn
  split at hn
  · exact endsIn_charSize hn
  · next hpos =>
    cases hn
    exact h.resolve_left hpos

theorem CountsWideNul.endsInWide {str : Ptr UInt8} {size : Int} {n : Nat}
    (h : CountsWideNul str size) (hn : sizeOr size (wingWcharSize str) = .ok n) :
    EndsInWide str n := by
  unfold sizeOr at hn
  split at hn
  · exact endsInWide_wcharSize hn
  · next hpos =>
    cases hn
    exact h.resolve_left hpos

/-- The text ends inside the bytes counted. -/
theorem EndsInWide.two_mul_le {str : Ptr UInt8} {n : Nat} {t : List UInt16} (h : EndsInWide str n)
    (ht : loadWide str = .ok t) : 2 * (t.length + 1) ≤ n := by
  obtain ⟨heven, data, hload, hlast⟩ := endsInWide_iff.mp h
  obtain ⟨units, hunits, -, rfl⟩ := loadText_eq_ok ht
  obtain ⟨mem, rfl, rfl⟩ := Option.map_eq_some_iff.mp hunits
  obtain ⟨hlen, hn | ⟨mem', hmem, hle, rfl⟩⟩ := load_eq_ok hload
  · rw [List.eq_nil_of_length_eq_zero (hlen.trans hn)] at hlast
    cases hlast
  · cases hmem
    have hhalf : 2 * (n / 2) = n := by
      simp only [wcharSize] at heven
      omega
    rw [← hhalf, wide_take] at hlast
    have hlt := length_text_lt_of_take (List.mem_of_getLast? hlast)
    omega

/-! ## New blocks -/

namespace WingString

variable {cp : CodePages} {s s' : WingString}

theorem fill_char_fresh {str : Ptr UInt8} {n : Nat} (hstr : EndsIn str n)
    (h : fill str n .char = .ok s') : s'.Fresh := by
  obtain ⟨block, hcopy, hs⟩ := bind_eq_ok.mp h
  cases hs
  have hload := load_of_memcpy hcopy
  obtain ⟨data, hdata, hlast⟩ := endsIn_iff.mp hstr
  rw [hload] at hdata
  cases hdata
  rw [← (load_eq_ok hload).1]
  exact fresh_char hlast

theorem fill_wchar_fresh {str : Ptr UInt8} {n : Nat} (hstr : EndsInWide str n)
    (h : fill str n .wchar = .ok s') : s'.Fresh := by
  obtain ⟨block, hcopy, hs⟩ := bind_eq_ok.mp h
  cases hs
  have hload := load_of_memcpy hcopy
  obtain ⟨heven, data, hdata, hlast⟩ := endsInWide_iff.mp hstr
  rw [hload] at hdata
  cases hdata
  rw [← (load_eq_ok hload).1] at heven ⊢
  exact fresh_wchar heven hlast

theorem ofChar_fresh {str : Ptr UInt8} {size : Int} (hstr : CountsNul str size)
    (h : ofChar str size = .ok s') : s'.Fresh := by
  obtain ⟨n, hn, hfill⟩ := bind_eq_ok.mp h
  exact fill_char_fresh (hstr.endsIn hn) hfill

theorem ofWchar_fresh {str : Ptr UInt8} {size : Int} (hstr : CountsWideNul str size)
    (h : ofWchar str size = .ok s') : s'.Fresh := by
  obtain ⟨n, hn, hfill⟩ := bind_eq_ok.mp h
  exact fill_wchar_fresh (hstr.endsInWide hn) hfill

theorem catChar_fresh (hs : s.Inv) (htype : s.strType = .char) {res : Ptr UInt8} {n : Nat}
    (hres : EndsIn res n) (h : s.catChar res n = .ok s') : s'.Fresh := by
  obtain ⟨mem, -, hinv⟩ := hs.char htype
  have hpos := hinv.pos
  rw [catChar, ulongPred_of_pos hpos] at h
  obtain ⟨front, hfront, h⟩ := bind_eq_ok.mp h
  obtain ⟨block, hblock, h⟩ := bind_eq_ok.mp h
  cases h
  obtain ⟨old, hold, hstore⟩ := bind_eq_ok.mp hfront
  obtain ⟨data, hdata, hstore'⟩ := bind_eq_ok.mp hblock
  obtain ⟨data', hdata', hlast⟩ := endsIn_iff.mp hres
  rw [hdata] at hdata'
  cases hdata'
  have hn : 0 < n := by
    rw [← (load_eq_ok hdata).1]
    apply List.length_pos_iff.mpr
    rintro rfl
    cases hlast
  have hlen : block.length = s.strSize + n - 1 := by
    rw [length_store hstore', length_store hstore, length_malloc]
  have hfrontLast : front.getLast? = some 0 := by
    refine getLast?_store hstore (getLast?_malloc (by omega)) (.inl ?_)
    rw [(load_eq_ok hold).1, length_malloc]
    omega
  rw [← hlen]
  exact fresh_char (getLast?_store hstore' hfrontLast (.inr hlast))

/-- The text of a `WCHAR` string ends inside its block. -/
theorem Inv.two_mul_le (hs : s.Inv) (htype : s.strType = .wchar) {x : List UInt16}
    (hx : loadWide s.str = .ok x) : 2 * (x.length + 1) ≤ s.strSize := by
  obtain ⟨mem, hstr, hinv⟩ := hs.wchar htype
  obtain ⟨units, hunits, hzero, rfl⟩ := loadText_eq_ok hx
  rw [hstr] at hunits
  cases hunits
  have hlt := length_text_lt hzero
  rw [length_wide] at hlt
  rw [hinv.whole]
  omega

theorem catWchar_fresh (hs : s.Inv) (htype : s.strType = .wchar) {buf : Ptr UInt8} {n : Nat}
    (heven : n % wcharSize = 0)
    (hroom : ∀ y, loadWide buf = .ok y → s.strSize + 2 * y.length ≤ n)
    (h : s.catWchar buf n = .ok s') : s'.Fresh := by
  obtain ⟨x, hx, h⟩ := bind_eq_ok.mp h
  obtain ⟨y, hy, h⟩ := bind_eq_ok.mp h
  obtain ⟨block, hblock, h⟩ := bind_eq_ok.mp h
  cases h
  have hxlen := hs.two_mul_le htype hx
  have hylen := hroom y hy
  have hwritten := length_wsprintfW x y
  rw [store_malloc (by rw [length_narrow]; omega)] at hblock
  obtain ⟨k, hk⟩ : ∃ k, n - (narrow (wsprintfW x y)).length = 2 * k :=
    ⟨n / 2 - (wsprintfW x y).length, by
      rw [length_narrow]
      simp only [wcharSize] at heven
      omega⟩
  rw [hk, ← narrow_malloc, ← narrow_append] at hblock
  cases hblock
  rw [length_narrow] at hk
  have hlen : (narrow (wsprintfW x y ++ malloc k)).length = n := by
    rw [length_narrow, List.length_append, length_malloc]
    omega
  have hlast : (wide (narrow (wsprintfW x y ++ malloc k))).getLast? = some 0 := by
    rw [wide_narrow, List.getLast?_append]
    by_cases hk0 : 0 < k
    · rw [getLast?_malloc hk0]
      rfl
    · -- nothing is left: the limit was not reached, and the NUL is the last unit written
      have hfull : x.length + y.length + 1 ≤ wsprintfLimit := by omega
      have hk' : k = 0 := by omega
      rw [hk', wsprintfW, List.take_of_length_le (by simpa [Nat.add_assoc] using hfull)]
      simp [malloc]
  rw [← hlen] at heven ⊢
  exact fresh_wchar heven hlast

/-! ## `append` and the operators -/

theorem appendChar_fresh (hs : s.Inv) {str : Ptr UInt8} {size : Int}
    (hstr : str = none ∨ CountsNul str size) (h : s.appendChar cp str size = .ok s') :
    s' = s ∨ s'.Fresh := by
  unfold appendChar at h
  split at h
  · cases h
    exact .inl rfl
  · next hnone =>
    obtain ⟨n, hn, h⟩ := bind_eq_ok.mp h
    have hends := (hstr.resolve_left hnone).endsIn hn
    refine .inr ?_
    cases htype : s.strType with
    | unknown =>
      simp only [htype] at h
      exact fill_char_fresh hends h
    | char =>
      simp only [htype] at h
      exact catChar_fresh hs htype hends h
    | wchar =>
      simp only [htype] at h
      obtain ⟨buf, -, h⟩ := bind_eq_ok.mp h
      obtain ⟨len, hlen, h⟩ := bind_eq_ok.mp h
      have hwide := endsInWide_wcharSize hlen
      have heven := (endsInWide_iff.mp hwide).1
      obtain ⟨mem, -, hinv⟩ := hs.wchar htype
      have hsize := hinv.even
      simp only [wcharSize] at heven hsize
      refine catWchar_fresh hs htype (by simp only [wcharSize]; omega) (fun y hy => ?_) h
      have hle := hwide.two_mul_le hy
      simp only [wcharSize]
      omega

theorem appendWchar_fresh (hs : s.Inv) {str : Ptr UInt8} {size : Int}
    (hstr : str = none ∨ CountsWideNul str size) (h : s.appendWchar cp str size = .ok s') :
    s' = s ∨ s'.Fresh := by
  unfold appendWchar at h
  split at h
  · cases h
    exact .inl rfl
  · next hnone =>
    obtain ⟨n, hn, h⟩ := bind_eq_ok.mp h
    have hends := (hstr.resolve_left hnone).endsInWide hn
    refine .inr ?_
    cases htype : s.strType with
    | unknown =>
      simp only [htype] at h
      exact fill_wchar_fresh hends h
    | char =>
      simp only [htype] at h
      obtain ⟨res, -, h⟩ := bind_eq_ok.mp h
      obtain ⟨len, hlen, h⟩ := bind_eq_ok.mp h
      exact catChar_fresh hs htype (endsIn_charSize hlen) h
    | wchar =>
      simp only [htype] at h
      have heven := (endsInWide_iff.mp hends).1
      obtain ⟨mem, -, hinv⟩ := hs.wchar htype
      have hsize := hinv.even
      simp only [wcharSize] at heven hsize
      refine catWchar_fresh hs htype (by simp only [wcharSize]; omega) (fun y hy => ?_) h
      have hle := hends.two_mul_le hy
      simp only [wcharSize]
      omega

variable {t : WingString}

/-- What a `CHAR` string hands over as an argument. -/
theorem Inv.endsIn (ht : t.Inv) (htype : t.strType = .char) :
    t.str ≠ none ∧ 0 < t.strSize ∧ EndsIn t.str t.strSize := by
  obtain ⟨mem, hstr, hinv⟩ := ht.char htype
  have hpos := hinv.pos
  refine ⟨by simp [hstr], hpos, endsIn_iff.mpr ⟨mem.take t.strSize, ?_, ?_⟩⟩
  · rw [hstr, load_some hinv.fits]
  · rw [List.getLast?_eq_getElem?, List.length_take_of_le hinv.fits,
      List.getElem?_take_of_lt (by omega)]
    exact hinv.ends

theorem Inv.endsInWide (ht : t.Inv) (htype : t.strType = .wchar) :
    t.str ≠ none ∧ 0 < t.strSize ∧ EndsInWide t.str t.strSize := by
  obtain ⟨mem, hstr, hinv⟩ := ht.wchar htype
  have hpos : 0 < t.strSize := by
    rw [hinv.whole]
    apply List.length_pos_iff.mpr
    rintro rfl
    cases hinv.last
  refine ⟨by simp [hstr], hpos, endsInWide_iff.mpr ⟨hinv.even, mem, ?_, hinv.last⟩⟩
  rw [hstr, load_some (Nat.le_of_eq hinv.whole), hinv.whole, List.take_length]

theorem countsNul_of_endsIn {str : Ptr UInt8} {n : Nat} (h : EndsIn str n) : CountsNul str n := .inr h

theorem countsWideNul_of_endsInWide {str : Ptr UInt8} {n : Nat} (h : EndsInWide str n) :
    CountsWideNul str n := .inr h

theorem appendStr_fresh (hs : s.Inv) (ht : t.Inv) (h : s.appendStr cp t = .ok s') :
    s' = s ∨ s'.Fresh := by
  cases htype : t.strType with
  | unknown =>
    have hsize := ht.unknown htype
    cases hs' : s.strType with
    | unknown =>
      rw [appendStr, hs', htype, hsize] at h
      cases h
      refine .inr ⟨rfl, ?_⟩
      rintro _ ⟨⟩
      rfl
    | char =>
      rw [appendStr, hs', htype] at h
      cases h
      exact .inl rfl
    | wchar =>
      rw [appendStr, hs', htype] at h
      cases h
      exact .inl rfl
  | char =>
    obtain ⟨hstr, hpos, hends⟩ := ht.endsIn htype
    rw [appendStr_char cp s htype hstr hpos] at h
    exact appendChar_fresh hs (.inr (countsNul_of_endsIn hends)) h
  | wchar =>
    obtain ⟨hstr, hpos, hends⟩ := ht.endsInWide htype
    rw [appendStr_wchar cp s htype hstr hpos] at h
    exact appendWchar_fresh hs (.inr (countsWideNul_of_endsInWide hends)) h

theorem assignChar_fresh (hs : s.Inv) {str : Ptr UInt8} (h : s.assignChar cp str = .ok s') :
    s' = s ∨ s'.Fresh := by
  obtain ⟨n, hn, h⟩ := bind_eq_ok.mp h
  exact appendChar_fresh hs (.inr (countsNul_of_endsIn (endsIn_charSize hn))) h

theorem assignWchar_fresh (hs : s.Inv) {str : Ptr UInt8} (h : s.assignWchar cp str = .ok s') :
    s' = s ∨ s'.Fresh := by
  obtain ⟨n, hn, h⟩ := bind_eq_ok.mp h
  exact appendWchar_fresh hs (.inr (countsWideNul_of_endsInWide (endsInWide_wcharSize hn))) h

theorem addStr_fresh (hs : s.Inv) (ht : t.Inv) (h : s.addStr cp t = .ok s') :
    s' = s ∨ s'.Fresh := by
  unfold addStr at h
  split at h
  · cases h
    exact .inl rfl
  · next htype =>
    exact appendChar_fresh hs (.inr (countsNul_of_endsIn (ht.endsIn htype).2.2)) h
  · next htype =>
    exact appendWchar_fresh hs (.inr (countsWideNul_of_endsInWide (ht.endsInWide htype).2.2)) h

/-! ## `copy` -/

theorem Inv.copy_unknown (ht : t.Inv) (htype : t.strType = .unknown) : t.copy = .ok none := by
  rw [copy, if_pos (.inr (Nat.le_of_eq (ht.unknown htype)))]

theorem copy_eq {block : List UInt8} (hstr : t.str ≠ none) (hpos : 0 < t.strSize)
    (hload : load t.str t.strSize = .ok block) : t.copy = .ok (some block) := by
  rw [copy, if_neg (by rintro (h | h); exact hstr h; omega), memcpy_of_load hload]
  rfl

theorem Inv.copy_char (ht : t.Inv) (htype : t.strType = .char) :
    ∃ block, t.copy = .ok (some block) ∧ block.length = t.strSize ∧ block.getLast? = some 0 := by
  obtain ⟨hstr, hpos, hends⟩ := ht.endsIn htype
  obtain ⟨block, hload, hlast⟩ := endsIn_iff.mp hends
  exact ⟨block, copy_eq hstr hpos hload, (load_eq_ok hload).1, hlast⟩

theorem Inv.copy_wchar (ht : t.Inv) (htype : t.strType = .wchar) :
    ∃ block, t.copy = .ok (some block) ∧ block.length = t.strSize ∧
      t.strSize % wcharSize = 0 ∧ (wide block).getLast? = some 0 := by
  obtain ⟨hstr, hpos, hends⟩ := ht.endsInWide htype
  obtain ⟨heven, block, hload, hlast⟩ := endsInWide_iff.mp hends
  exact ⟨block, copy_eq hstr hpos hload, (load_eq_ok hload).1, heven, hlast⟩

theorem assignStr_fresh (ht : t.Inv) (h : s.assignStr t = .ok s') : s'.Fresh := by
  obtain ⟨str, hcopy, h⟩ := bind_eq_ok.mp h
  cases h
  cases htype : t.strType with
  | unknown =>
    rw [ht.copy_unknown htype] at hcopy
    cases hcopy
    rw [ht.unknown htype]
    refine ⟨rfl, ?_⟩
    rintro _ ⟨⟩
  | char =>
    obtain ⟨block, hblock, hlen, hlast⟩ := ht.copy_char htype
    rw [hblock] at hcopy
    cases hcopy
    rw [← hlen]
    exact fresh_char hlast
  | wchar =>
    obtain ⟨block, hblock, hlen, heven, hlast⟩ := ht.copy_wchar htype
    rw [hblock] at hcopy
    cases hcopy
    rw [← hlen] at heven
    rw [← hlen]
    exact fresh_wchar heven hlast

/-! ## `toUTF8` and `trim` -/

theorem takeUtf8_inv (hs : s.Inv) {utf8 : Ptr UInt8} {b : Bool}
    (hutf8 : ∀ mem ∈ utf8, mem.getLast? = some 0) (h : s.takeUtf8 utf8 = .ok (s', b)) : s'.Inv := by
  cases utf8 with
  | none =>
    cases h
    exact hs
  | some block =>
    obtain ⟨size, hsize, h⟩ := bind_eq_ok.mp h
    obtain ⟨n, hn, hsize⟩ := bind_eq_ok.mp hsize
    cases hsize
    cases h
    exact inv_of_strlen (hutf8 block rfl) hn

theorem wcharToUtf8_last {str utf8 : Ptr UInt8} (h : wingStrWcharToUtf8 cp str = .ok utf8) :
    ∀ mem ∈ utf8, mem.getLast? = some 0 := by
  cases str with
  | none =>
    cases h
    rintro _ ⟨⟩
  | some mem =>
    obtain ⟨t, -, h⟩ := bind_eq_ok.mp h
    split at h
    · cases h
      rintro _ ⟨⟩
    · cases h
      rintro _ ⟨⟩
      simp

theorem charToUtf8_last {str utf8 : Ptr UInt8} (h : wingStrCharToUtf8 cp str = .ok utf8) :
    ∀ mem ∈ utf8, mem.getLast? = some 0 := by
  cases str with
  | none =>
    cases h
    rintro _ ⟨⟩
  | some mem =>
    obtain ⟨t, -, h⟩ := bind_eq_ok.mp h
    split at h
    · cases h
      rintro _ ⟨⟩
    · obtain ⟨unicode, -, h⟩ := bind_eq_ok.mp h
      split at h
      · cases h
        rintro _ ⟨⟩
      · cases h
        rintro _ ⟨⟩
        simp

theorem toUTF8_inv (hs : s.Inv) {b : Bool} (h : s.toUTF8 cp = .ok (s', b)) : s'.Inv := by
  unfold toUTF8 at h
  split at h
  · cases h
    exact hs
  · obtain ⟨utf8, hutf8, h⟩ := bind_eq_ok.mp h
    exact takeUtf8_inv hs (charToUtf8_last hutf8) h
  · obtain ⟨utf8, hutf8, h⟩ := bind_eq_ok.mp h
    exact takeUtf8_inv hs (wcharToUtf8_last hutf8) h

theorem trim_inv {isspace : Int → Bool} {before : Option UInt8} (hs : s.Inv)
    (h : s.trim isspace before = .ok s') : s'.Inv := by
  unfold trim at h
  split at h
  · cases h
    exact hs
  · cases htype : s.strType with
    | unknown =>
      simp only [htype] at h
      cases h
      exact hs
    | wchar =>
      simp only [htype] at h
      cases h
      exact hs
    | char =>
      simp only [htype] at h
      obtain ⟨mem, hstr, hinv⟩ := hs.char htype
      obtain ⟨str, htrim, h⟩ := bind_eq_ok.mp h
      obtain ⟨n, hn, h⟩ := bind_eq_ok.mp h
      cases h
      rw [hstr] at htrim
      obtain ⟨len, hlen, htrim⟩ := bind_eq_ok.mp htrim
      obtain ⟨mem', hmem', htrim⟩ := bind_eq_ok.mp htrim
      cases htrim
      obtain ⟨t, ht, hl⟩ := bind_eq_ok.mp hlen
      cases hl
      obtain ⟨_, hmem, hzero, rfl⟩ := loadText_eq_ok ht
      cases hmem
      have hlt := length_text_lt hzero
      exact inv_of_strlen (trimBetween_same hmem' (by omega) hinv.last).2 hn

end WingString

end WingPhp.Strings
