import WingPhp.WingString.Runs

/-!
# The calls that change a string stay inside too

A call can fault: through a `NULL` literal, or the `NULL` of a conversion that failed.  In no run
does one leave a block (`call_inside`), when a text that is read to its end is terminated and the
byte in front of a string that is trimmed can be read.  `trim` reads that byte on an empty
string (`trim_empty_outside`).
-/

namespace WingPhp.Strings

open Memory Transition

theorem inside_sizeOr {size : Int} {occupied : Except Fault Nat} (h : size ≤ 0 → Inside occupied) :
    Inside (sizeOr size occupied) := by
  unfold sizeOr
  split
  · next hle => exact h hle
  · exact inside_ok _

theorem inside_wingCharSize {str : Ptr UInt8} (h : Inside (loadText str)) :
    Inside (wingCharSize str) :=
  inside_bind (inside_bind h fun _ _ => inside_ok _) fun _ _ => inside_ok _

theorem inside_wingWcharSize {str : Ptr UInt8} (h : Inside (loadWide str)) :
    Inside (wingWcharSize str) :=
  inside_bind (inside_bind h fun _ _ => inside_ok _) fun _ _ => inside_ok _

theorem inside_store {mem data : List UInt8} {i : Nat} (h : i + data.length ≤ mem.length) :
    Inside (store mem i data) := by
  rw [store, if_pos h]
  exact inside_ok _

/-- Bytes that end in a NUL hold a text. -/
theorem EndsIn.inside {str : Ptr UInt8} {n : Nat} (h : EndsIn str n) : Inside (loadText str) := by
  obtain ⟨data, hload, hlast⟩ := endsIn_iff.mp h
  obtain ⟨hlen, hn | ⟨mem, rfl, hle, rfl⟩⟩ := load_eq_ok hload
  · rw [List.eq_nil_of_length_eq_zero (hlen.trans hn)] at hlast
    cases hlast
  · exact inside_loadText (List.mem_of_mem_take (List.mem_of_getLast? hlast))

theorem EndsInWide.inside {str : Ptr UInt8} {n : Nat} (h : EndsInWide str n) :
    Inside (loadWide str) := by
  obtain ⟨heven, data, hload, hlast⟩ := endsInWide_iff.mp h
  obtain ⟨hlen, hn | ⟨mem, rfl, hle, rfl⟩⟩ := load_eq_ok hload
  · rw [List.eq_nil_of_length_eq_zero (hlen.trans hn)] at hlast
    cases hlast
  · have hhalf : 2 * (n / 2) = n := by
      simp only [wcharSize] at heven
      omega
    rw [← hhalf, wide_take] at hlast
    exact inside_loadWide (List.mem_of_mem_take (List.mem_of_getLast? hlast))

namespace WingString

variable {cp : CodePages} {s : WingString}

/-! ## Joining -/

theorem inside_fill {str : Ptr UInt8} {n : Nat} (h : ∃ data, load str n = .ok data)
    (strType : StrType) : Inside (fill str n strType) := by
  obtain ⟨data, hload⟩ := h
  rw [fill, memcpy_of_load hload]
  exact inside_ok _

theorem inside_catChar (hs : s.Inv) (htype : s.strType = .char) {res : Ptr UInt8} {n : Nat}
    (hres : EndsIn res n) : Inside (s.catChar res n) := by
  obtain ⟨mem, hstr, hinv⟩ := hs.char htype
  obtain ⟨data, hdata, -⟩ := endsIn_iff.mp hres
  have hpos := hinv.pos
  have hfits := hinv.fits
  have hfront : (mem.take (s.strSize - 1)).length = s.strSize - 1 := List.length_take_of_le (by omega)
  have hlen := (load_eq_ok hdata).1
  rw [catChar, ulongPred_of_pos hpos]
  refine inside_bind (inside_bind ?_ fun old hold => inside_store ?_) fun front hcopy =>
    inside_bind (inside_bind ?_ fun data' hdata' => inside_store ?_) fun _ _ => inside_ok _
  · rw [hstr, load_some (by omega)]
    exact inside_ok _
  · rw [(load_eq_ok hold).1, length_malloc]
    omega
  · rw [hdata]
    exact inside_ok _
  · obtain ⟨old, -, hstore⟩ := bind_eq_ok.mp hcopy
    rw [(load_eq_ok hdata').1, length_store hstore, length_malloc]
    omega

theorem inside_catWchar (hs : s.Inv) (htype : s.strType = .wchar) {buf : Ptr UInt8} {n : Nat}
    (hbuf : Inside (loadWide buf))
    (hroom : ∀ y, loadWide buf = .ok y → s.strSize + 2 * y.length ≤ n) :
    Inside (s.catWchar buf n) := by
  refine inside_bind (hs.inside_wide htype) fun x hx => inside_bind hbuf fun y hy =>
    inside_bind (inside_store ?_) fun _ _ => inside_ok _
  have hxlen := hs.two_mul_le htype hx
  have hylen := hroom y hy
  rw [length_malloc, length_narrow, length_wsprintfW]
  omega

/-! ## `append` -/

theorem inside_appendChar (hs : s.Inv) {str : Ptr UInt8} {size : Int}
    (hstr : str = none ∨ CountsNul str size) (htext : size ≤ 0 → Inside (loadText str)) :
    Inside (s.appendChar cp str size) := by
  unfold appendChar
  split
  · exact inside_ok _
  · next hnone =>
    refine inside_bind (inside_sizeOr fun hle => inside_wingCharSize (htext hle)) fun n hn => ?_
    have hends := (hstr.resolve_left hnone).endsIn hn
    cases htype : s.strType with
    | unknown =>
      obtain ⟨data, hload, -⟩ := endsIn_iff.mp hends
      exact inside_fill ⟨data, hload⟩ _
    | char => exact inside_catChar hs htype hends
    | wchar =>
      refine inside_bind (inside_charToWchar cp hends.inside) fun buf hbuf => ?_
      have hwide := inside_of_charToWchar hbuf
      refine inside_bind (inside_wingWcharSize hwide) fun len hlen => ?_
      refine inside_catWchar hs htype hwide fun y hy => ?_
      have hle := (endsInWide_wcharSize hlen).two_mul_le hy
      simp only [wcharSize]
      omega

theorem inside_appendWchar (hs : s.Inv) {str : Ptr UInt8} {size : Int}
    (hstr : str = none ∨ CountsWideNul str size) (htext : size ≤ 0 → Inside (loadWide str)) :
    Inside (s.appendWchar cp str size) := by
  unfold appendWchar
  split
  · exact inside_ok _
  · next hnone =>
    refine inside_bind (inside_sizeOr fun hle => inside_wingWcharSize (htext hle)) fun n hn => ?_
    have hends := (hstr.resolve_left hnone).endsInWide hn
    cases htype : s.strType with
    | unknown =>
      obtain ⟨-, data, hload, -⟩ := endsInWide_iff.mp hends
      exact inside_fill ⟨data, hload⟩ _
    | char =>
      refine inside_bind (inside_wcharToChar cp hends.inside) fun res hres => ?_
      refine inside_bind (inside_wingCharSize (inside_of_wcharToChar hres)) fun len hlen => ?_
      exact inside_catChar hs htype (endsIn_charSize hlen)
    | wchar =>
      refine inside_catWchar hs htype hends.inside fun y hy => ?_
      have hle := hends.two_mul_le hy
      simp only [wcharSize]
      omega

variable {t : WingString}

theorem inside_appendStr (hs : s.Inv) (ht : t.Inv) : Inside (s.appendStr cp t) := by
  cases htype : t.strType with
  | unknown =>
    have hsize := ht.unknown htype
    rw [appendStr, htype]
    cases s.strType with
    | unknown =>
      rw [hsize]
      exact inside_fill ⟨[], rfl⟩ _
    | char => exact inside_ok _
    | wchar => exact inside_ok _
  | char =>
    obtain ⟨hstr, hpos, hends⟩ := ht.endsIn htype
    rw [appendStr_char cp s htype hstr hpos]
    exact inside_appendChar hs (.inr (countsNul_of_endsIn hends)) fun _ => hends.inside
  | wchar =>
    obtain ⟨hstr, hpos, hends⟩ := ht.endsInWide htype
    rw [appendStr_wchar cp s htype hstr hpos]
    exact inside_appendWchar hs (.inr (countsWideNul_of_endsInWide hends)) fun _ => hends.inside

theorem inside_assignChar (hs : s.Inv) {str : Ptr UInt8} (htext : Inside (loadText str)) :
    Inside (s.assignChar cp str) :=
  inside_bind (inside_wingCharSize htext) fun _ hn =>
    inside_appendChar hs (.inr (countsNul_of_endsIn (endsIn_charSize hn))) fun _ => htext

theorem inside_assignWchar (hs : s.Inv) {str : Ptr UInt8} (htext : Inside (loadWide str)) :
    Inside (s.assignWchar cp str) :=
  inside_bind (inside_wingWcharSize htext) fun _ hn =>
    inside_appendWchar hs (.inr (countsWideNul_of_endsInWide (endsInWide_wcharSize hn))) fun _ => htext

theorem inside_addStr (hs : s.Inv) (ht : t.Inv) : Inside (s.addStr cp t) := by
  unfold addStr
  split
  · exact inside_ok _
  · next htype =>
    have hends := (ht.endsIn htype).2.2
    exact inside_appendChar hs (.inr (countsNul_of_endsIn hends)) fun _ => hends.inside
  · next htype =>
    have hends := (ht.endsInWide htype).2.2
    exact inside_appendWchar hs (.inr (countsWideNul_of_endsInWide hends)) fun _ => hends.inside

/-! ## `toUTF8` -/

theorem inside_takeUtf8 {utf8 : Ptr UInt8} (h : ∀ mem ∈ utf8, mem.getLast? = some 0) :
    Inside (s.takeUtf8 utf8) := by
  cases utf8 with
  | none => exact inside_ok _
  | some block =>
    have htext := inside_loadText (List.mem_of_getLast? (h block rfl))
    exact inside_bind (inside_wingCharSize htext) fun _ _ => inside_ok _

theorem inside_wcharToUtf8 {str : Ptr UInt8} (h : Inside (loadWide str)) :
    Inside (wingStrWcharToUtf8 cp str) := by
  cases str with
  | none => exact inside_ok _
  | some mem =>
    refine inside_bind h fun t _ => ?_
    cases cp.wideToUtf8 t <;> exact inside_ok _

theorem inside_charToUtf8 {str : Ptr UInt8} (h : Inside (loadText str)) :
    Inside (wingStrCharToUtf8 cp str) := by
  cases str with
  | none => exact inside_ok _
  | some mem =>
    refine inside_bind h fun t _ => ?_
    cases cp.acpToWide t with
    | none => exact inside_ok _
    | some units =>
      refine inside_bind ?_ fun unicode _ => ?_
      · apply inside_loadWide
        rw [wide_narrow]
        simp
      · cases cp.wideToUtf8 unicode <;> exact inside_ok _

theorem inside_toUTF8 (hs : s.Inv) : Inside (s.toUTF8 cp) := by
  unfold toUTF8
  cases htype : s.strType with
  | unknown => exact inside_ok _
  | char =>
    exact inside_bind (inside_charToUtf8 (hs.inside_text htype)) fun _ hutf8 =>
      inside_takeUtf8 (charToUtf8_last hutf8)
  | wchar =>
    exact inside_bind (inside_wcharToUtf8 (hs.inside_wide htype)) fun _ hutf8 =>
      inside_takeUtf8 (wcharToUtf8_last hutf8)

end WingString

/-! ## `trim` -/

section Trim

variable {isspace : Int → Bool} {before : Option UInt8} {mem : List UInt8}

/-- An offset inside the buffer, or the one in front of it. -/
theorem byteAt_ok {i : Int} (hbefore : before ≠ none) (hfrom : -1 ≤ i) (hto : i < mem.length) :
    ∃ c, byteAt before mem i = .ok c := by
  cases i with
  | ofNat i =>
    have hi : i < mem.length := Int.ofNat_lt.mp hto
    refine ⟨mem[i], ?_⟩
    rw [byteAt, List.getElem?_eq_getElem hi]
  | negSucc i =>
    obtain rfl : i = 0 := by omega
    obtain ⟨c, hc⟩ := Option.ne_none_iff_exists'.mp hbefore
    subst hc
    exact ⟨c, rfl⟩

theorem inside_findStart (hbefore : before ≠ none) {left start : Nat}
    (h : start + left < mem.length) : Inside (findStart isspace before mem left start) := by
  induction left generalizing start with
  | zero =>
    refine inside_bind (inside_of_ok (byteAt_ok hbefore (by omega) (by omega))) fun c _ => ?_
    split <;> exact inside_ok _
  | succ left ih =>
    refine inside_bind (inside_of_ok (byteAt_ok hbefore (by omega) (by omega))) fun c _ => ?_
    split
    · exact inside_ok _
    · exact ih (by omega)

theorem findStart_le {left start start' : Nat}
    (h : findStart isspace before mem left start = .ok (some start')) : start' ≤ start + left := by
  induction left generalizing start with
  | zero =>
    obtain ⟨c, -, h⟩ := bind_eq_ok.mp h
    split at h
    · cases h
      omega
    · cases h
  | succ left ih =>
    obtain ⟨c, -, h⟩ := bind_eq_ok.mp h
    split at h
    · cases h
      omega
    · have := ih h
      omega

theorem inside_findEnd (hbefore : before ≠ none) {left : Nat} {fin : Int} (hfrom : -1 ≤ fin - left)
    (hto : fin < mem.length) : Inside (findEnd isspace before mem left fin) := by
  induction left generalizing fin with
  | zero =>
    refine inside_bind (inside_of_ok (byteAt_ok hbefore (by omega) hto)) fun c _ => ?_
    split <;> exact inside_ok _
  | succ left ih =>
    refine inside_bind (inside_of_ok (byteAt_ok hbefore (by omega) hto)) fun c _ => ?_
    split
    · exact inside_ok _
    · exact ih (by omega) (by omega)

theorem inside_trimBetween (hbefore : before ≠ none) {fin : Int} (hfrom : -1 ≤ fin)
    (hto : fin + 1 < mem.length) : Inside (trimBetween isspace before mem fin) := by
  have hcut : Inside (store mem 0 [0]) := by
    apply inside_store
    simp only [List.length_singleton]
    omega
  refine inside_bind (inside_findStart hbefore (by omega)) fun start hstart => ?_
  cases start with
  | none => exact hcut
  | some start =>
    have hle := findStart_le hstart
    refine inside_bind (inside_findEnd hbefore (by omega) (by omega)) fun fin' hfin' => ?_
    cases fin' with
    | none => exact hcut
    | some fin' =>
      have hle' := findEnd_le hfin'
      have hload : load (some (mem.drop start)) (fin' - start + 1).toNat =
          .ok ((mem.drop start).take (fin' - start + 1).toNat) := by
        apply load_some
        rw [List.length_drop]
        omega
      have hlen := (load_eq_ok hload).1
      refine inside_bind (inside_bind ?_ fun data hdata => inside_store ?_) fun str hstr =>
        inside_store ?_
      · rw [hload]
        exact inside_ok _
      · rw [(load_eq_ok hdata).1]
        omega
      · obtain ⟨data, -, hstore⟩ := bind_eq_ok.mp hstr
        rw [length_store hstore, List.length_singleton]
        omega

theorem WingString.inside_trim {s : WingString} (hs : s.Inv) (hbefore : before ≠ none) :
    Inside (s.trim isspace before) := by
  unfold WingString.trim
  split
  · exact inside_ok _
  · cases htype : s.strType with
    | unknown => exact inside_ok _
    | wchar => exact inside_ok _
    | char =>
      obtain ⟨mem, hstr, hinv⟩ := hs.char htype
      have hzero : 0 ∈ mem := List.mem_of_getLast? hinv.last
      have hlt := length_text_lt hzero
      have hlen : sizeOr 0 (strlen (some mem)) = .ok (text mem).length := by
        rw [sizeOr, if_pos (Int.le_refl 0), strlen, loadText, if_pos hzero]
        rfl
      rw [hstr, wingStrTrim, hlen, ok_bind]
      refine inside_bind (inside_bind (inside_trimBetween hbefore (by omega) (by omega))
        fun _ _ => inside_ok _) fun str htrim => ?_
      obtain ⟨mem', hmem', htrim⟩ := bind_eq_ok.mp htrim
      cases htrim
      have hlast := (trimBetween_same hmem' (by omega) hinv.last).2
      have htext := inside_loadText (List.mem_of_getLast? hlast)
      exact inside_bind (inside_bind htext fun _ _ => inside_ok _) fun _ _ => inside_ok _

end Trim

/-! ## Every call -/

/-- What the caller provides: a text that is read to its end is terminated, and the byte in front
of a string that is trimmed can be read. -/
def Call.Provided : Call → Prop
  | appendChar str size => size ≤ 0 → Inside (loadText str)
  | appendWchar str size => size ≤ 0 → Inside (loadWide str)
  | assignChar str | addChar str | addAssignChar str => Inside (loadText str)
  | assignWchar str | addWchar str | addAssignWchar str => Inside (loadWide str)
  | trim before => before ≠ none
  | appendStr _ | assignStr _ | addStr _ | addAssignStr _ | toUTF8 => True

variable {cp : CodePages} {isspace : Int → Bool}

/-- **In no run does a call leave a block.** -/
theorem call_inside {w : Watched Objects (Nat → Bool)}
    (h : (wingStringsWatched cp isspace).Reach (fun _ a => CountsTerminator a) w) {k : Nat}
    {s : WingString} (hk : w.state k = some s) {c : Call} (hc : CountsTerminator (.call k c))
    (hprovided : c.Provided) {r : Except Fault WingString}
    (hr : c.run cp isspace w.state s = some r) : Inside r := by
  have hi := objectsInv_of_reach h
  have hs := (hi k s hk).1
  have harg : ∀ {j : Nat} {f : WingString → Except Fault WingString},
      (w.state j).map f = some r → ∃ t, t.Inv ∧ f t = r := by
    intro j f hf
    obtain ⟨t, ht, hrun⟩ := Option.map_eq_some_iff.mp hf
    exact ⟨t, (hi j t ht).1, hrun⟩
  cases c with
  | appendChar str size =>
    cases hr
    exact WingString.inside_appendChar hs hc hprovided
  | appendWchar str size =>
    cases hr
    exact WingString.inside_appendWchar hs hc hprovided
  | appendStr j =>
    obtain ⟨t, ht, rfl⟩ := harg hr
    exact WingString.inside_appendStr hs ht
  | assignChar str | addChar str | addAssignChar str =>
    cases hr
    exact WingString.inside_assignChar hs hprovided
  | assignWchar str | addWchar str | addAssignWchar str =>
    cases hr
    exact WingString.inside_assignWchar hs hprovided
  | assignStr j =>
    obtain ⟨t, ht, rfl⟩ := harg hr
    exact inside_bind (inside_of_ok ht.copy_ok) fun _ _ => inside_ok _
  | addStr j | addAssignStr j =>
    obtain ⟨t, ht, rfl⟩ := harg hr
    exact WingString.inside_addStr hs ht
  | toUTF8 =>
    cases hr
    have hutf8 : Inside (s.toUTF8 cp) := WingString.inside_toUTF8 hs
    cases hrun : s.toUTF8 cp with
    | error e =>
      intro herr
      cases herr
      exact hutf8 hrun
    | ok r => exact inside_ok _
  | trim before =>
    cases hr
    exact WingString.inside_trim hs hprovided

/-- On an empty string `trim` reads the byte in front of the block. -/
theorem trim_empty_outside (isspace : Int → Bool) (hnul : isspace 0 = false) (rest : List UInt8) :
    wingStrTrim isspace none (some (0 :: rest)) 0 = .error .outside := by
  have hlen : sizeOr 0 (strlen (some (0 :: rest))) = .ok 0 := by
    rw [sizeOr, if_pos (Int.le_refl 0), strlen, loadText, if_pos List.mem_cons_self]
    rfl
  have hstart : findStart isspace none (0 :: rest) 0 0 = .ok (some 0) := by
    show (if !isspace (charToInt 0) then _ else _) = _
    rw [show charToInt 0 = 0 from rfl, hnul]
    rfl
  rw [wingStrTrim, hlen, ok_bind, trimBetween]
  show ((findStart isspace none (0 :: rest) 0 0 >>= _) >>= _) = _
  rw [hstart]
  rfl

end WingPhp.Strings
