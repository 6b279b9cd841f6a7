import WingPhp.WingString.Laws
import WingPhp.WingString.Runs

/-!
# What the operators do to values

`=`, `+` and `+=` with a literal append to the receiver, and so do `+` and `+=` with a string; `+` answers the
receiver itself.  `operators_right_iff` says for which contents this is an assignment, a concatenation that
leaves its operands alone, and a concatenation in place.

Contents may have NULs inside.  A text in another encoding is converted piece by piece between its NULs
(`Content.converted`); the code converts the first piece only.
-/

namespace WingPhp.Strings

open Memory

inductive Operator where
  | assign
  | add
  | addAssign
  deriving DecidableEq, Repr

/-- What stands on the right: a literal, or the object at a place. -/
inductive RightSide where
  | char (lit : Ptr UInt8)
  | wchar (lit : Ptr UInt8)
  | object (j : Nat)

def RightSide.isLiteral : RightSide → Bool
  | .char _ => true
  | .wchar _ => true
  | .object _ => false

/-- The nine overloads. -/
def Operator.call : Operator → RightSide → Call
  | .assign, .char lit => .assignChar lit
  | .assign, .wchar lit => .assignWchar lit
  | .assign, .object j => .assignStr j
  | .add, .char lit => .addChar lit
  | .add, .wchar lit => .addWchar lit
  | .add, .object j => .addStr j
  | .addAssign, .char lit => .addAssignChar lit
  | .addAssign, .wchar lit => .addAssignWchar lit
  | .addAssign, .object j => .addAssignStr j

/-- The object at a place has this content. -/
def Contains (objs : Objects) (k : Nat) (x : Content) : Prop := ∃ s, objs k = some s ∧ s.Has x

/-- The text of a literal, or the content of the object. -/
def RightSide.Denotes (objs : Objects) : RightSide → Content → Prop
  | .char lit, y => ∃ t rest, y = .char t ∧ 0 ∉ t ∧ lit = some (y.bytes ++ rest)
  | .wchar lit, y => ∃ t rest, y = .wchar t ∧ 0 ∉ t ∧ lit = some (y.bytes ++ rest)
  | .object j, y => Contains objs j y

/-! ## Concatenation -/

/-- The pieces of a text, converted, with NULs between them. -/
def joinPieces {α β : Type} [OfNat β 0] (conv : List α → List β) : List (List α) → List β
  | [] => []
  | [t] => conv t
  | t :: more => conv t ++ 0 :: joinPieces conv more

/-- In the encoding of a receiver of this type; a receiver without one takes it as it is. -/
def Content.converted (cp : CodePages) : StrType → Content → Content
  | .char, .wchar t => .char (joinPieces cp.oem (t.splitOnP (· == 0)))
  | .wchar, .char t => .wchar (joinPieces cp.acp (t.splitOnP (· == 0)))
  | _, y => y

/-- What the operator is for: the content on the left becomes the one on the right, or both together; `+`
answers the left operand and leaves its content alone.  All other objects stay what they are. -/
structure OperatorRight (op : Operator) (k : Nat) (x y y' : Content) (objs objs' : Objects) : Prop where
  others : ∀ i, i ≠ k → objs' i = objs i
  value : Contains objs' k (if op = .assign then y else x.append y')
  left : op = .add → Contains objs' k x

/-- `wsprintfW` writes all of it: there is nothing behind a NUL, and the text has at most 1024 characters. -/
def Written (z : List UInt16) : Prop := Cleared z ∧ (text z).length ≤ wsprintfLimit

instance (z : List UInt16) : Decidable (Written z) := inferInstanceAs (Decidable (_ ∧ _))

/-- Appending joins these contents: what is converted has no NUL inside, and on a `WCHAR` string `wsprintfW`
writes all. -/
def JoinsWhole (cp : CodePages) : Content → Content → Prop
  | .char _, .wchar t => 0 ∉ t
  | .wchar x, .wchar t => Written (x ++ t)
  | .wchar x, .char t => 0 ∉ t ∧ Written (x ++ cp.acp t)
  | _, _ => True

/-- An assignment of a literal needs a left side of no type, or an empty one of the literal's type; `+` a left
side that nothing is added to. -/
def OperatorFits (cp : CodePages) (op : Operator) (literal : Bool) (x y : Content) : Prop :=
  match op with
  | .assign =>
    literal = false ∨ x = .unknown ∨ (x.type = y.type ∧ x.length = 0 ∧ JoinsWhole cp x y)
  | .add => JoinsWhole cp x y ∧ (y = .unknown ∨ (x ≠ .unknown ∧ (y.converted cp x.type).length = 0))
  | .addAssign => JoinsWhole cp x y

/-! ## Contents -/

section
variable {cp : CodePages} {s s' : WingString} {x y : Content}

theorem Content.bytes_inj (htype : x.type = y.type) (h : x.bytes = y.bytes) : x = y := by
  cases x with
  | unknown =>
    cases y with
    | unknown => rfl
    | char t => cases htype
    | wchar t => cases htype
  | char t =>
    cases y with
    | unknown => cases htype
    | char t' => exact congrArg Content.char (List.append_cancel_right h)
    | wchar t' => cases htype
  | wchar t =>
    cases y with
    | unknown => cases htype
    | char t' => cases htype
    | wchar t' => exact congrArg Content.wchar (List.append_cancel_right (narrow_inj.mp h))

/-- A string has one content. -/
theorem WingString.Has.unique (hx : s.Has x) (hy : s.Has y) : x = y := by
  have htype : x.type = y.type := hx.type.symm.trans hy.type
  refine Content.bytes_inj htype ?_
  by_cases hunknown : x = .unknown
  · subst hunknown
    cases y with
    | unknown => rfl
    | char t => cases htype
    | wchar t => cases htype
  · obtain ⟨r, hr⟩ := hx.block hunknown
    have hunknown' : y ≠ .unknown := by
      rintro rfl
      cases x with
      | unknown => exact hunknown rfl
      | char t => cases htype
      | wchar t => cases htype
    obtain ⟨r', hr'⟩ := hy.block hunknown'
    have hblock := Option.some.inj (hr.symm.trans hr')
    exact (List.append_inj hblock (hx.size.symm.trans hy.size)).1

/-- **Every string that keeps the invariant has a content.** -/
theorem WingString.Inv.has (hs : s.Inv) : ∃ x, s.Has x := by
  cases htype : s.strType with
  | unknown => exact ⟨.unknown, htype, hs.unknown htype, fun h => absurd rfl h⟩
  | char =>
    obtain ⟨mem, hstr, hinv⟩ := hs.char htype
    have hpos := hinv.pos
    have hfits := hinv.fits
    have hsplit : mem.take (s.strSize - 1) ++ [0] ++ mem.drop s.strSize = mem := by
      have hlast : mem.take (s.strSize - 1) ++ [0] = mem.take s.strSize := by
        have hstep := List.take_add_one (l := mem) (i := s.strSize - 1)
        rw [hinv.ends] at hstep
        rw [show s.strSize - 1 + 1 = s.strSize by omega] at hstep
        exact hstep.symm
      rw [hlast, List.take_append_drop]
    refine ⟨.char (mem.take (s.strSize - 1)), htype, ?_, fun _ => ⟨mem.drop s.strSize, ?_⟩⟩
    · show s.strSize = (mem.take (s.strSize - 1) ++ [0]).length
      rw [List.length_append, List.length_take_of_le (by omega), List.length_singleton]
      omega
    · rw [hstr]
      exact congrArg some hsplit.symm
  | wchar =>
    obtain ⟨mem, hstr, hinv⟩ := hs.wchar htype
    obtain ⟨t, ht⟩ : ∃ t, wide mem = t ++ [0] := List.getLast?_eq_some_iff.mp hinv.last
    have heven : mem.length % 2 = 0 := by
      rw [← hinv.whole]
      exact hinv.even
    have hmem : mem = narrow (t ++ [0]) := by
      rw [← ht, narrow_wide mem heven]
    refine ⟨.wchar t, htype, ?_, fun _ => ⟨[], ?_⟩⟩
    · rw [hinv.whole, hmem]
      rfl
    · rw [hstr, List.append_nil, hmem]
      rfl

/-! ## Pieces -/

theorem joinPieces_of_not_mem {α β : Type} [DecidableEq α] [OfNat α 0] [OfNat β 0] (conv : List α → List β)
    {t : List α} (h : 0 ∉ t) : joinPieces conv (t.splitOnP (· == 0)) = conv t := by
  have hone : t.splitOnP (· == 0) = [t] := by
    refine List.splitOnP_eq_singleton fun c hc => beq_eq_false_iff_ne.mpr ?_
    rintro rfl
    exact h hc
  rw [hone]
  rfl

/-- The first piece, and more. -/
theorem joinPieces_of_mem {α β : Type} [DecidableEq α] [OfNat α 0] [OfNat β 0] (conv : List α → List β)
    {t : List α} (h : 0 ∈ t) :
    ∃ more, joinPieces conv (t.splitOnP (· == 0)) = conv (text t) ++ 0 :: more := by
  obtain ⟨rest, hrest⟩ := text_append_zero h
  have hpieces : t.splitOnP (· == 0) = text t :: rest.splitOnP (· == 0) := by
    conv => lhs; rw [← hrest, List.append_assoc]
    refine List.splitOnP_append_cons_of_forall_mem (p := (· == 0)) (fun c hc => beq_eq_false_iff_ne.mpr ?_) 0
      (beq_self_eq_true (0 : α)) rest
    rintro rfl
    exact zero_not_mem_text t hc
  obtain ⟨first, more, hmore⟩ := List.exists_cons_of_ne_nil (List.splitOnP_ne_nil (· == 0) rest)
  rw [hpieces, hmore]
  exact ⟨_, rfl⟩

/-! ## Appending -/

/-- What `append` is called with for a content; it is not called for `UNKNOWN`. -/
def appendBytes (cp : CodePages) (s : WingString) (rest : List UInt8) : Content → Except Fault WingString
  | .unknown => .ok s
  | .char t => s.appendChar cp (some ((Content.char t).bytes ++ rest)) (Content.char t).bytes.length
  | .wchar t => s.appendWchar cp (some ((Content.wchar t).bytes ++ rest)) (Content.wchar t).bytes.length

/-- After appending `y` to `x`: the type is that of `x`; two contents of one encoding are counted whole; and
they are joined when `wsprintfW` writes all and no NUL is inside what is converted. -/
structure Appended (cp : CodePages) (s' : WingString) (x y : Content) : Prop where
  type : x ≠ .unknown → s'.strType = x.type
  size : x.type = y.type → s'.strSize = (x.append y).bytes.length
  joined : s'.Has (x.append (y.converted cp x.type)) ↔ JoinsWhole cp x y

theorem Appended.of_has {z : Content} (h : s'.Has z) (hz : z.type = x.type ∨ x = .unknown)
    (hsame : x.type = y.type → z = x.append y)
    (hjoined : z = x.append (y.converted cp x.type) ↔ JoinsWhole cp x y) : Appended cp s' x y where
  type hx := h.type.trans (hz.resolve_right hx)
  size hxy := by rw [h.size, hsame hxy]
  joined := by
    rw [← hjoined]
    constructor
    · intro h'
      exact h.unique h'
    · rintro rfl
      exact h

theorem length_bytes_pos (hy : y ≠ .unknown) : 0 < y.bytes.length := by
  cases y with
  | unknown => exact absurd rfl hy
  | char t => simp [Content.bytes]
  | wchar t => simp [Content.bytes]

theorem length_bytes_wchar (t : List UInt16) : (Content.wchar t).bytes.length = 2 * (t.length + 1) := by
  simp [Content.bytes]

/-- A text of bytes, onto each type. -/
theorem appendChar_has (hcp : cp.Total) (hs : s.Has x) (t rest : List UInt8) :
    ∃ s', appendBytes cp s rest (.char t) = .ok s' ∧ Appended cp s' x (.char t) := by
  rw [appendBytes, WingString.appendChar, if_neg (by simp),
    WingString.sizeOr_of_pos (length_bytes_pos (by simp)), ok_bind, hs.type]
  cases x with
  | unknown =>
    obtain ⟨s', hfill, hs'⟩ := WingString.fill_has (.char t) rest
    exact ⟨s', hfill, .of_has hs' (.inr rfl) (fun h => by cases h) (iff_of_true rfl trivial)⟩
  | char x =>
    obtain ⟨s', hcat, hs'⟩ := WingString.catChar_has hs t rest
    exact ⟨s', hcat, .of_has hs' (.inl rfl) (fun _ => rfl) (iff_of_true rfl trivial)⟩
  | wchar x =>
    obtain ⟨hfree, hconv⟩ := charToWchar_block hcp (loadText_block t rest)
    have htext := (cleared_of_not_mem hfree).2
    have hload := loadWide_bytes hfree []
    have hlen := wingWcharSize_bytes hfree []
    rw [List.append_nil] at hload hlen
    have hpiece : loadWide (some (Content.wchar (cp.acp (text t))).bytes) = .ok (text (cp.acp (text t))) := by
      rw [htext]
      exact hload
    show ∃ s', (do
      let buf ← wingStrCharToWchar cp (some ((Content.char t).bytes ++ rest))
      let len ← wingWcharSize buf
      s.catWchar buf (len - wcharSize + s.strSize)) = .ok s' ∧ _
    rw [hconv, ok_bind, hlen, ok_bind]
    have hn : (Content.wchar (cp.acp (text t))).bytes.length - wcharSize + s.strSize =
        2 * (x.length + (cp.acp (text t)).length + 1) := by
      rw [hs.size, length_bytes_wchar, length_bytes_wchar, wcharSize]
      omega
    obtain ⟨s', hcat, htype, hsize, hiff⟩ := WingString.catWchar_has_iff hs (cp.acp (text t)) hpiece hn
    refine ⟨s', hcat, fun _ => htype, (fun h => by cases h), ?_⟩
    show s'.Has (.wchar (x ++ joinPieces cp.acp (t.splitOnP (· == 0)))) ↔ 0 ∉ t ∧ Written (x ++ cp.acp t)
    by_cases ht : 0 ∈ t
    · obtain ⟨more, hmore⟩ := joinPieces_of_mem cp.acp ht
      refine iff_of_false (fun h => ?_) fun h => h.1 ht
      -- the size is that of the first piece
      have hbytes := h.size
      rw [hsize, hn, length_bytes_wchar, hmore] at hbytes
      simp only [List.length_append, List.length_cons] at hbytes
      omega
    · rw [joinPieces_of_not_mem cp.acp ht]
      rw [(cleared_of_not_mem ht).2] at hiff
      exact hiff.trans (and_iff_right ht).symm

/-- A text of units, onto each type. -/
theorem appendWchar_has (hcp : cp.Total) (hs : s.Has x) (t : List UInt16) (rest : List UInt8) :
    ∃ s', appendBytes cp s rest (.wchar t) = .ok s' ∧ Appended cp s' x (.wchar t) := by
  rw [appendBytes, WingString.appendWchar, if_neg (by simp),
    WingString.sizeOr_of_pos (length_bytes_pos (by simp)), ok_bind, hs.type]
  cases x with
  | unknown =>
    obtain ⟨s', hfill, hs'⟩ := WingString.fill_has (.wchar t) rest
    exact ⟨s', hfill, .of_has hs' (.inr rfl) (fun h => by cases h) (iff_of_true rfl trivial)⟩
  | char x =>
    obtain ⟨hfree, hconv⟩ := wcharToChar_block hcp (loadWide_block t rest)
    have hlen := wingCharSize_bytes hfree []
    obtain ⟨s', hcat, hs'⟩ := WingString.catChar_has hs (cp.oem (text t)) []
    rw [List.append_nil] at hlen hcat
    refine ⟨s', ?_, .of_has hs' (.inl rfl) (fun h => by cases h) ?_⟩
    · show (do
        let res ← wingStrWcharToChar cp (some ((Content.wchar t).bytes ++ rest))
        let len ← wingCharSize res
        s.catChar res len) = _
      rw [hconv, ok_bind, hlen, ok_bind, hcat]
    · show Content.char (x ++ cp.oem (text t)) = .char (x ++ joinPieces cp.oem (t.splitOnP (· == 0))) ↔ 0 ∉ t
      rw [Content.char.injEq, List.append_cancel_left_eq]
      by_cases ht : 0 ∈ t
      · obtain ⟨more, hmore⟩ := joinPieces_of_mem cp.oem ht
        refine iff_of_false (fun h => ?_) fun h => h ht
        rw [hmore] at h
        have hl := congrArg List.length h
        simp at hl
      · rw [joinPieces_of_not_mem cp.oem ht, (cleared_of_not_mem ht).2]
        exact iff_of_true rfl ht
  | wchar x =>
    have hn : s.strSize + (Content.wchar t).bytes.length - wcharSize = 2 * (x.length + t.length + 1) := by
      rw [hs.size, length_bytes_wchar, length_bytes_wchar, wcharSize]
      omega
    obtain ⟨s', hcat, htype, hsize, hiff⟩ := WingString.catWchar_has_iff hs t (loadWide_block t rest) hn
    refine ⟨s', hcat, fun _ => htype, fun _ => ?_, hiff⟩
    rw [hsize, hn]
    show _ = (Content.wchar (x ++ t)).bytes.length
    rw [length_bytes_wchar, List.length_append]

theorem appendBytes_has (hcp : cp.Total) (hs : s.Has x) (hy : y ≠ .unknown) (rest : List UInt8) :
    ∃ s', appendBytes cp s rest y = .ok s' ∧ Appended cp s' x y := by
  cases y with
  | unknown => exact absurd rfl hy
  | char t => exact appendChar_has hcp hs t rest
  | wchar t => exact appendWchar_has hcp hs t rest

/-- A copy has the content of the string copied. -/
theorem assignStr_has {t : WingString} (ht : t.Has y) : ∃ s', s.assignStr t = .ok s' ∧ s'.Has y := by
  by_cases hy : y = .unknown
  · subst hy
    have hcopy : t.copy = .ok none := if_pos (.inr (Nat.le_of_eq ht.size))
    rw [WingString.assignStr, hcopy]
    exact ⟨_, rfl, ht.type, ht.size, fun h => absurd rfl h⟩
  · obtain ⟨rest, hstr⟩ := ht.block hy
    have hpos := length_bytes_pos hy
    have hcopy : t.copy = .ok (some y.bytes) := by
      have hsize := ht.size
      rw [WingString.copy, if_neg (by rw [hstr]; simp; omega), hstr, hsize, memcpy_malloc _ _ (Nat.le_refl _),
        Nat.sub_self]
      exact congrArg (fun l => Except.ok (some l)) (List.append_nil _)
    rw [WingString.assignStr, hcopy]
    exact ⟨_, rfl, ht.type, ht.size, fun _ => ⟨[], congrArg some (List.append_nil _).symm⟩⟩

/-! ## The nine overloads -/

variable {isspace : Int → Bool} {objs : Objects} {r : RightSide}

/-- Eight of them append. -/
theorem call_append {op : Operator} (hr : r.Denotes objs y) (h : op ≠ .assign ∨ r.isLiteral = true) :
    ∃ rest, (op.call r).run cp isspace objs s = some (appendBytes cp s rest y) := by
  cases r with
  | char lit =>
    obtain ⟨t, rest, rfl, hfree, rfl⟩ := hr
    have hcall : (op.call (.char (some ((Content.char t).bytes ++ rest)))).run cp isspace objs s =
        some (wingCharSize (some ((Content.char t).bytes ++ rest)) >>= fun size =>
          s.appendChar cp (some ((Content.char t).bytes ++ rest)) size) := by
      cases op <;> rfl
    rw [hcall, wingCharSize_bytes hfree]
    exact ⟨rest, rfl⟩
  | wchar lit =>
    obtain ⟨t, rest, rfl, hfree, rfl⟩ := hr
    have hcall : (op.call (.wchar (some ((Content.wchar t).bytes ++ rest)))).run cp isspace objs s =
        some (wingWcharSize (some ((Content.wchar t).bytes ++ rest)) >>= fun size =>
          s.appendWchar cp (some ((Content.wchar t).bytes ++ rest)) size) := by
      cases op <;> rfl
    rw [hcall, wingWcharSize_bytes hfree]
    exact ⟨rest, rfl⟩
  | object j =>
    obtain ⟨t, hj, ht⟩ := hr
    have hcall : (op.call (.object j)).run cp isspace objs s = some (s.addStr cp t) := by
      cases op with
      | assign =>
        rcases h with h | h
        · exact absurd rfl h
        · cases h
      | add => exact congrArg (Option.map fun t => s.addStr cp t) hj
      | addAssign => exact congrArg (Option.map fun t => s.addAssignStr cp t) hj
    rw [hcall, WingString.addStr, ht.type]
    cases y with
    | unknown => exact ⟨[], rfl⟩
    | char c =>
      obtain ⟨rest, hstr⟩ := ht.block (by simp)
      rw [hstr, ht.size]
      exact ⟨rest, rfl⟩
    | wchar w =>
      obtain ⟨rest, hstr⟩ := ht.block (by simp)
      rw [hstr, ht.size]
      exact ⟨rest, rfl⟩

/-- A call that goes through, on its object. -/
theorem step_of_run {k : Nat} (hk : objs k = some s) {c : Call}
    (h : c.run cp isspace objs s = some (.ok s')) :
    stringStep cp isspace objs (.call k c) = some (Function.update objs k (some s')) := by
  simp only [stringStep, hk, Option.bind_some, h]

theorem contains_update {k : Nat} {z : Content} :
    Contains (Function.update objs k (some s')) k z ↔ s'.Has z := by
  simp [Contains]

/-- An operator is right when the string it leaves has the content it is for. -/
theorem operatorRight_iff {op : Operator} {k : Nat} {y' : Content} :
    OperatorRight op k x y y' objs (Function.update objs k (some s')) ↔
      s'.Has (if op = .assign then y else x.append y') ∧ (op = .add → s'.Has x) := by
  constructor
  · intro h
    exact ⟨contains_update.mp h.value, fun hop => contains_update.mp (h.left hop)⟩
  · rintro ⟨hvalue, hleft⟩
    exact ⟨fun i hi => Function.update_of_ne hi _ _, contains_update.mpr hvalue,
      fun hop => contains_update.mpr (hleft hop)⟩

theorem converted_same (h : x.type = y.type) : y.converted cp x.type = y := by
  rw [h]
  cases y <;> rfl

/-- Nothing is added. -/
theorem append_eq_self_iff (hy : y ≠ .unknown) :
    x.append (y.converted cp x.type) = x ↔ x ≠ .unknown ∧ (y.converted cp x.type).length = 0 := by
  cases x with
  | unknown =>
    cases y with
    | unknown => exact absurd rfl hy
    | char t => exact iff_of_false (by simp [Content.append, Content.converted, Content.type]) fun h => h.1 rfl
    | wchar t => exact iff_of_false (by simp [Content.append, Content.converted, Content.type]) fun h => h.1 rfl
  | char x =>
    cases y with
    | unknown => exact absurd rfl hy
    | char t => simp [Content.append, Content.converted, Content.length, Content.type]
    | wchar t => simp [Content.append, Content.converted, Content.length, Content.type]
  | wchar x =>
    cases y with
    | unknown => exact absurd rfl hy
    | char t => simp [Content.append, Content.converted, Content.length, Content.type]
    | wchar t => simp [Content.append, Content.converted, Content.length, Content.type]

/-- In front of a text of the same encoding only the empty text adds nothing. -/
theorem append_empty (htype : x.type = y.type) (hx : x.length = 0) : x.append y = y := by
  cases x with
  | unknown => rfl
  | char x =>
    rw [List.eq_nil_of_length_eq_zero hx]
    cases y with
    | unknown => cases htype
    | char t => rfl
    | wchar t => cases htype
  | wchar x =>
    rw [List.eq_nil_of_length_eq_zero hx]
    cases y with
    | unknown => cases htype
    | char t => cases htype
    | wchar t => rfl

theorem length_of_size (htype : x.type = y.type) (h : (x.append y).bytes.length = y.bytes.length) :
    x.length = 0 := by
  cases x with
  | unknown => rfl
  | char x =>
    cases y with
    | unknown => cases htype
    | char t =>
      simp only [Content.append, Content.bytes, List.length_append] at h
      show x.length = 0
      omega
    | wchar t => cases htype
  | wchar x =>
    cases y with
    | unknown => cases htype
    | char t => cases htype
    | wchar t =>
      simp only [Content.append, Content.bytes, length_narrow, List.length_append] at h
      show x.length = 0
      omega

/-- What appending makes an assignment. -/
theorem Appended.assigned_iff (h : Appended cp s' x y) :
    s'.Has y ↔ x = .unknown ∨ (x.type = y.type ∧ x.length = 0 ∧ JoinsWhole cp x y) := by
  have hjoined := h.joined
  by_cases hx : x = .unknown
  · subst hx
    have hplain : y.converted cp Content.unknown.type = y := by cases y <;> rfl
    rw [hplain] at hjoined
    exact iff_of_true (hjoined.mpr trivial) (.inl rfl)
  · constructor
    · intro hy
      have htype : x.type = y.type := (h.type hx).symm.trans hy.type
      have hempty := length_of_size htype ((h.size htype).symm.trans hy.size)
      rw [converted_same htype, append_empty htype hempty] at hjoined
      exact .inr ⟨htype, hempty, hjoined.mp hy⟩
    · intro hfits
      obtain ⟨htype, hempty, hwhole⟩ := hfits.resolve_left hx
      rw [converted_same htype, append_empty htype hempty] at hjoined
      exact hjoined.mpr hwhole

/-- The call that goes through decides. -/
theorem right_of_run {k : Nat} (hk : objs k = some s) {op : Operator} {y' : Content}
    (hrun : (op.call r).run cp isspace objs s = some (.ok s')) :
    (∃ objs', stringStep cp isspace objs (.call k (op.call r)) = some objs' ∧
        OperatorRight op k x y y' objs objs') ↔
      s'.Has (if op = .assign then y else x.append y') ∧ (op = .add → s'.Has x) := by
  rw [step_of_run hk hrun]
  constructor
  · rintro ⟨objs', hobjs, h⟩
    cases hobjs
    exact operatorRight_iff.mp h
  · intro h
    exact ⟨_, rfl, operatorRight_iff.mpr h⟩

/-- An assignment of a string copies it. -/
theorem call_assign {j : Nat} (hr : (RightSide.object j).Denotes objs y) :
    ∃ s', (Operator.assign.call (.object j)).run cp isspace objs s = some (.ok s') ∧ s'.Has y := by
  obtain ⟨t, hj, ht⟩ := hr
  obtain ⟨s', hassign, hs'⟩ := @assignStr_has s y t ht
  exact ⟨s', (congrArg (Option.map fun t => s.assignStr t) hj).trans (congrArg some hassign), hs'⟩

/-- A literal is of a type. -/
theorem literal_known (hr : r.Denotes objs y) (hlit : r.isLiteral = true) : y ≠ .unknown := by
  rintro rfl
  cases r with
  | char lit =>
    obtain ⟨t, rest, ht, -⟩ := hr
    cases ht
  | wchar lit =>
    obtain ⟨t, rest, ht, -⟩ := hr
    cases ht
  | object j => cases hlit

/-- A string that nothing is appended to. -/
theorem fits_unknown (hs : s.Has x) {op : Operator} (hop : op ≠ .assign) (literal : Bool) :
    (s.Has (if op = .assign then .unknown else x.append (Content.unknown.converted cp x.type)) ∧
      (op = .add → s.Has x)) ↔ OperatorFits cp op literal x .unknown := by
  have hnone : x.append (Content.unknown.converted cp x.type) = x := by cases x <;> rfl
  have hwhole : JoinsWhole cp x .unknown := by cases x <;> trivial
  rw [if_neg hop, hnone]
  refine iff_of_true ⟨hs, fun _ => hs⟩ ?_
  cases op with
  | assign => exact absurd rfl hop
  | add => exact ⟨hwhole, .inl rfl⟩
  | addAssign => exact hwhole

/-- A string that something is appended to. -/
theorem Appended.fits_iff (h : Appended cp s' x y) (hy : y ≠ .unknown) {op : Operator} {literal : Bool}
    (hlit : op ≠ .assign ∨ literal = true) :
    (s'.Has (if op = .assign then y else x.append (y.converted cp x.type)) ∧ (op = .add → s'.Has x)) ↔
      OperatorFits cp op literal x y := by
  have hjoined := h.joined
  cases op with
  | assign =>
    rw [hlit.resolve_left fun hne => hne rfl, if_pos rfl, h.assigned_iff]
    simp [OperatorFits]
  | add =>
    constructor
    · rintro ⟨hboth, hleft⟩
      have hself := (append_eq_self_iff hy).mp (hboth.unique (hleft rfl))
      exact ⟨hjoined.mp hboth, .inr hself⟩
    · rintro ⟨hwhole, hself⟩
      have heq := (append_eq_self_iff hy).mpr (hself.resolve_left hy)
      have hboth := hjoined.mpr hwhole
      refine ⟨hboth, fun _ => ?_⟩
      rwa [heq] at hboth
  | addAssign => exact ⟨fun h' => hjoined.mp h'.1, fun hwhole => ⟨hjoined.mpr hwhole, fun h => by cases h⟩⟩

/-- **The operators keep to values** exactly if their contents fit (`OperatorFits`): for all strings and
literals, also for an object with itself. -/
theorem operators_right_iff (hcp : cp.Total) {k : Nat} (hk : objs k = some s) (hs : s.Has x)
    (hr : r.Denotes objs y) (op : Operator) :
    (∃ objs', stringStep cp isspace objs (.call k (op.call r)) = some objs' ∧
      OperatorRight op k x y (y.converted cp x.type) objs objs') ↔ OperatorFits cp op r.isLiteral x y := by
  by_cases happend : op ≠ .assign ∨ r.isLiteral = true
  · obtain ⟨rest, hrun⟩ := @call_append cp s y isspace objs r op hr happend
    by_cases hy : y = .unknown
    · have hop : op ≠ .assign := happend.resolve_right fun hlit => literal_known hr hlit hy
      subst hy
      rw [right_of_run hk hrun]
      exact fits_unknown hs hop _
    · obtain ⟨s', hs', h⟩ := appendBytes_has hcp hs hy rest
      rw [hs'] at hrun
      rw [right_of_run hk hrun]
      exact h.fits_iff hy happend
  · rw [not_or, not_not] at happend
    obtain ⟨rfl, hlit⟩ := happend
    cases r with
    | char lit => exact absurd rfl hlit
    | wchar lit => exact absurd rfl hlit
    | object j =>
      obtain ⟨s', hrun, hs'⟩ := @call_assign cp s y isspace objs j hr
      rw [right_of_run hk hrun]
      exact iff_of_true ⟨hs', fun h => by cases h⟩ (.inl rfl)

end

/-- `L"ab"` and `+= "c"`. -/
theorem operators_ab_c :
    ∃ objs', stringStep asciiPages cIsspace (fun _ => some ⟨some [97, 0, 98, 0, 0, 0], 6, .wchar⟩)
        (.call 0 (Operator.addAssign.call (.char (some [99, 0])))) = some objs' ∧
      OperatorRight .addAssign 0 (.wchar [97, 98]) (.char [99])
        ((Content.char [99]).converted asciiPages (Content.wchar [97, 98]).type)
        (fun _ => some ⟨some [97, 0, 98, 0, 0, 0], 6, .wchar⟩) objs' :=
  (@operators_right_iff asciiPages ⟨some [97, 0, 98, 0, 0, 0], 6, .wchar⟩ (.wchar [97, 98]) (.char [99]) cIsspace
    (fun _ => some ⟨some [97, 0, 98, 0, 0, 0], 6, .wchar⟩) (.char (some [99, 0])) asciiPages_total 0 rfl
    ⟨rfl, rfl, fun _ => ⟨[], rfl⟩⟩ ⟨[99], [], rfl, by decide, rfl⟩ .addAssign).mpr ⟨by decide, by decide⟩

/-- `"1"`, and `= "2"`. -/
theorem operators_assign_appends :
    ¬ ∀ (cp : CodePages) (isspace : Int → Bool) (objs : Objects) (k : Nat) (s : WingString) (r : RightSide)
      (x y : Content) (op : Operator), cp.Total → objs k = some s → s.Has x → r.Denotes objs y →
      ∃ objs', stringStep cp isspace objs (.call k (op.call r)) = some objs' ∧
        OperatorRight op k x y (y.converted cp x.type) objs objs' := by
  intro h
  obtain ⟨objs', hstep, hright⟩ := h asciiPages cIsspace (fun _ => some ⟨some [49, 0], 2, .char⟩) 0
    ⟨some [49, 0], 2, .char⟩ (.char (some [50, 0])) (.char [49]) (.char [50]) .assign asciiPages_total rfl
    ⟨rfl, rfl, fun _ => ⟨[], rfl⟩⟩ ⟨[50], [], rfl, by decide, rfl⟩
  have hafter : (stringStep asciiPages cIsspace (fun _ => some ⟨some [49, 0], 2, .char⟩)
      (.call 0 (Operator.assign.call (.char (some [50, 0]))))).bind (fun objs' => objs' 0) =
      some ⟨some [49, 50, 0], 3, .char⟩ := rfl
  rw [hstep] at hafter
  obtain ⟨s', hs', hhas⟩ := hright.value
  have hsame := hs'.symm.trans hafter
  cases hsame
  exact absurd hhas.size (by decide)

end WingPhp.Strings
