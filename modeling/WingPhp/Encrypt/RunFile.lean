import WingPhp.Encrypt.Complete

/-!
# `wing_run_file`

`wing_run_file` evaluates the block `WingDecryptFile` left, whatever the function
returned (`runFile_ready`).  `returns_true_complete_iff` collects what the three functions
promise with their answer and when they keep it.  On a complete
decryption the text evaluated starts at byte 5 as soon as byte 0 is `'<'`, and ends at the
first NUL: `runFile_evaluates_iff` says for which sources that is the source
without its open tag.
-/

namespace WingPhp.Encrypt

open StreamCipher

variable (csp : List UInt8 → Nat → UInt8)

/-! ## What is evaluated -/

/-- How many bytes the tag skip passes over. -/
def skip (block : List UInt8) : Nat := if block.head? = some lessThan then 5 else 0

theorem runFile_not_ready {hw : Hardware} {c : DecryptCalls} (h : ¬ c.Ready) (file : List UInt8)
    (given : Option (List UInt8)) :
    zendWingRunFile csp hw c file given = some ⟨false, none⟩ := by
  unfold zendWingRunFile
  cases encryptPassword given hw with
  | none => rfl
  | some password => simp only [wingDecryptFile_not_ready csp h]

/-- A block with a NUL in it is evaluated, and nothing else about the decryption is looked at. -/
theorem runFile_of_block {hw : Hardware} {c : DecryptCalls} {file password : List UInt8}
    {given : Option (List UInt8)} {ret : Bool} {t : Text}
    (hpw : encryptPassword given hw = some password)
    (hrun : wingDecryptFile csp c file password = some ⟨ret, some t⟩) (hnul : 0 ∈ t.block) :
    zendWingRunFile csp hw c file given = some ⟨true, some ⟨t.block, skip t.block⟩⟩ := by
  unfold zendWingRunFile
  simp only [hpw, hrun, if_pos hnul, skip]

/-- Once the decryption reached its loop something is evaluated. -/
theorem runFile_ready {hw : Hardware} {c : DecryptCalls} (h : c.Ready) {file password : List UInt8}
    {given : Option (List UInt8)} (hlen : file.length < 0x80000000)
    (hpw : encryptPassword given hw = some password) :
    ∃ t, wingDecryptFile csp c file password = some ⟨true, some t⟩ ∧
      zendWingRunFile csp hw c file given = some ⟨true, some ⟨t.block, skip t.block⟩⟩ := by
  obtain ⟨t, text, hrun, ht, hpre, -⟩ := wingDecryptFile_ready csp h hlen password
  refine ⟨t, hrun, runFile_of_block csp hpw hrun ?_⟩
  have hle := hpre.length_le
  rw [length_maskedText] at hle
  rw [ht.block_eq, List.mem_append]
  exact .inr (List.mem_replicate.mpr ⟨by omega, rfl⟩)

/-- For a file whose length a `long` cannot hold `strlen` or `memcpy` leaves the block. -/
theorem runFile_long {hw : Hardware} {c : DecryptCalls} (h : c.Ready) {file password : List UInt8}
    {given : Option (List UInt8)} (hlen : ¬ file.length < 0x80000000)
    (hpw : encryptPassword given hw = some password) :
    zendWingRunFile csp hw c file given = none := by
  unfold zendWingRunFile
  obtain hrun | hrun := wingDecryptFile_long csp h hlen password
  · simp only [hpw, hrun]
  · simp [hpw, hrun]

/-! ## Believing the answers -/

/-- **`wing_run_file` evaluates code** only when the decryption was complete. -/
def RunFileComplete (hw : Hardware) (c : DecryptCalls) (file : List UInt8)
    (given : Option (List UInt8)) : Prop :=
  ∃ r, zendWingRunFile csp hw c file given = some r ∧
    ∀ code, r.eval = some code → ∃ password d, encryptPassword given hw = some password ∧
      wingDecryptFile csp c file password = some d ∧ d.Complete csp file password

theorem runFileComplete_iff (hw : Hardware) (c : DecryptCalls) (file : List UInt8)
    (given : Option (List UInt8)) :
    RunFileComplete csp hw c file given ↔
      encryptPassword given hw = none ∨ ¬ c.Ready ∨ c.AllChunks file := by
  by_cases h : c.Ready
  · cases hpw : encryptPassword given hw with
    | none => simp [RunFileComplete, zendWingRunFile, hpw]
    | some password =>
      by_cases hlen : file.length < 0x80000000
      · obtain ⟨t, hrun, heval⟩ := runFile_ready csp h hlen hpw
        have hiff := decryptComplete_iff csp c file password
        simp only [DecryptComplete, hrun, Option.some.injEq, exists_eq_left', forall_const,
          h, not_true, false_or] at hiff
        simp [RunFileComplete, heval, hpw, hrun, hiff, h]
      · simp [RunFileComplete, runFile_long csp h hlen hpw, not_allChunks hlen, h]
  · simp [RunFileComplete, runFile_not_ready csp h, h]

/-- **A TRUE can be believed** exactly when a call before the loop failed, so that it is not
given, or every chunk went through.  A decrypted file must also have a length a `long` holds. -/
theorem returns_true_complete_iff (hw : Hardware) (given : Option (List UInt8))
    (ce : EncryptCalls) (cd : DecryptCalls) (source file password : List UInt8) :
    (EncryptComplete csp ce source password ↔
      ¬ ce.Ready ∨ DoneFrom ce.chunk ce.fwrite source.length 0) ∧
    (DecryptComplete csp cd file password ↔ ¬ cd.Ready ∨ cd.AllChunks file) ∧
    (RunFileComplete csp hw cd file given ↔
      encryptPassword given hw = none ∨ ¬ cd.Ready ∨ cd.AllChunks file) :=
  ⟨encryptComplete_iff csp ce source password, decryptComplete_iff csp cd file password,
    runFileComplete_iff csp hw cd file given⟩

/-- `CryptEncrypt` fails on every chunk. -/
def encryptFails : EncryptCalls := { encryptSucceeds with chunk := fun _ => ⟨.all, false⟩ }

/-- Every read fails. -/
def decryptFails : DecryptCalls := { decryptSucceeds with chunk := fun _ => ⟨.failed 0, true⟩ }

/-- A one-byte file: nothing is encrypted, nothing is decrypted, and both calls answer TRUE;
an empty text is evaluated. -/
theorem one_byte_true_but_incomplete :
    (wingEncryptFile countingCsp encryptFails [0x41] [0x6B, 0] = some ⟨true, some []⟩ ∧
      ¬ EncryptComplete countingCsp encryptFails [0x41] [0x6B, 0]) ∧
    (wingDecryptFile countingCsp decryptFails [0x41] [0x6B, 0] = some ⟨true, some ⟨[0, 0], 0⟩⟩ ∧
      ¬ DecryptComplete countingCsp decryptFails [0x41] [0x6B, 0]) ∧
    (zendWingRunFile countingCsp ⟨none, none⟩ decryptFails [0x41] (some [0x6B, 0]) =
        some ⟨true, some ⟨[0, 0], 0⟩⟩ ∧
      ¬ RunFileComplete countingCsp ⟨none, none⟩ decryptFails [0x41] (some [0x6B, 0])) := by
  have he : encryptFails.Ready := ⟨rfl, rfl, ⟨rfl, rfl⟩, rfl⟩
  have hd : decryptFails.Ready := ⟨rfl, rfl, ⟨rfl, rfl⟩, rfl⟩
  have hne : ¬ DoneFrom encryptFails.chunk encryptFails.fwrite 1 0 := by
    intro h
    have := (h 0 (Nat.le_refl 0) (by decide)).2.1
    cases this
  have hnd : ¬ decryptFails.AllChunks [0x41] := by
    intro h
    have := (h.2 0 (Nat.le_refl 0) (by decide)).1
    cases this
  have hdecrypt : wingDecryptFile countingCsp decryptFails [0x41] [0x6B, 0] =
      some ⟨true, some ⟨[0, 0], 0⟩⟩ := by
    rw [wingDecryptFile_loop _ hd, cryptLoop_failed _ _ _ _ (by decide)]
    rfl
  refine ⟨⟨?_, ?_⟩, ⟨hdecrypt, ?_⟩, ?_, ?_⟩
  · have hcalls : ¬ ((encryptFails.chunk 0).fread = .all ∧ (encryptFails.chunk 0).crypt = true) := by
      decide
    rw [wingEncryptFile, genKeyByPassword_ready _ he.provider]
    simp only [he.openSource, he.openDestination, he.provider.1, he.mallocBuffer,
      cryptLoop_failed _ _ _ _ hcalls]
    rfl
  · rw [encryptComplete_iff]
    rintro (h | h)
    · exact h he
    · exact hne h
  · rw [decryptComplete_iff]
    rintro (h | h)
    · exact h hd
    · exact hnd h
  · exact runFile_of_block _ (by decide) hdecrypt (by decide)
  · rw [runFileComplete_iff]
    rintro (h | h | h)
    · exact absurd h (by decide)
    · exact h hd
    · exact hnd h

/-! ## The text of a complete decryption -/

/-- `"<?php"`. -/
def openTag : List UInt8 := [0x3C, 0x3F, 0x70, 0x68, 0x70]

/-- The code of a source file: the source without its open tag, if it has one. -/
def codeOf (source : List UInt8) : List UInt8 :=
  if openTag <+: source then source.drop openTag.length else source

theorem runCode_text_terminated (source : List UInt8) {offset : Nat} (h : offset ≤ source.length) :
    RunCode.text ⟨source ++ [0], offset⟩ = some (upToNul (source.drop offset ++ [0])) := by
  rw [RunCode.text, List.drop_append_of_le_length h, if_pos (by simp)]

/-- Reading a terminated source behind the skip gives its code exactly for these sources. -/
theorem runCode_text_iff (source : List UInt8) :
    RunCode.text ⟨source ++ [0], skip (source ++ [0])⟩ = some (codeOf source) ↔
      0 ∉ source ∧ (source.head? = some lessThan → openTag <+: source) := by
  by_cases htag : openTag <+: source
  · -- both leave the five bytes of the tag
    obtain ⟨code, rfl⟩ := htag
    have hskip : skip (openTag ++ code ++ [0]) = openTag.length := rfl
    rw [hskip, runCode_text_terminated _ (by simp), codeOf, if_pos (List.prefix_append _ _),
      List.drop_left, Option.some.injEq, upToNul_terminated, List.mem_append, not_or]
    simp [openTag]
  · rw [codeOf, if_neg htag]
    by_cases hhead : source.head? = some lessThan
    · -- five bytes are missing, or the reader starts behind the block
      have hskip : skip (source ++ [0]) = 5 := by
        rw [skip, List.head?_append, hhead]
        rfl
      have hpos : 0 < source.length := by
        cases source with
        | nil => cases hhead
        | cons b rest => exact Nat.succ_pos _
      simp only [hhead, htag, hskip, forall_const, and_false, iff_false]
      intro htext
      rw [RunCode.text] at htext
      split at htext
      · have hlen := length_upToNul_le ((source ++ [0]).drop 5)
        rw [Option.some.inj htext, List.length_drop, List.length_append,
          List.length_singleton] at hlen
        omega
      · cases htext
    · have hskip : skip (source ++ [0]) = 0 := by
        rw [skip, if_neg]
        cases source with
        | nil => decide
        | cons b rest => exact hhead
      rw [hskip, runCode_text_terminated _ (Nat.zero_le _), List.drop_zero, Option.some.injEq,
        upToNul_terminated]
      simp [hhead]

/-- **What `wing_run_file` evaluates.**  After a successful `wing_encrypt_file` with the same
password, and with no call failing, the evaluator gets the source without its open tag and
stays inside the block exactly when the source has no NUL, starts with `'<'` only as part
of the open tag, and has a length that a `long` holds. -/
theorem runFile_evaluates_iff {hw hw' : Hardware} {ce : EncryptCalls} {cd : DecryptCalls}
    {given given' : Option (List UInt8)} {source file password : List UInt8} (he : ce.Succeed)
    (hd : cd.Succeed) (hpw : encryptPassword given hw = some password)
    (hpw' : encryptPassword given' hw' = some password)
    (hfile : zendWingEncryptFile csp hw ce source given = some ⟨true, some file⟩) :
    (∃ r code, zendWingRunFile csp hw' cd file given' = some r ∧ r.eval = some code ∧
        code.text = some (codeOf source)) ↔
      source.length < 0x80000000 ∧ 0 ∉ source ∧
        (source.head? = some lessThan → openTag <+: source) := by
  have hmasked : file = maskedText csp password source := by
    have hrun := wingEncryptFile_succeed csp he source password
    simp only [zendWingEncryptFile, hpw] at hfile
    rw [hrun] at hfile
    exact (Option.some.inj (congrArg Encrypted.destination (Option.some.inj hfile))).symm
  have hlength : file.length = source.length := by rw [hmasked, length_maskedText]
  by_cases hlen : source.length < 0x80000000
  · have hrun := wingDecryptFile_succeed csp hd (by omega : file.length < 0x80000000) password
    rw [hlength, hmasked, maskedText_maskedText, ← hmasked] at hrun
    rw [runFile_of_block csp hpw' hrun (by simp)]
    simp only [Option.some.injEq, exists_and_left, exists_eq_left', runCode_text_iff, hlen, true_and]
  · rw [runFile_long csp hd.toReady (by omega) hpw']
    constructor
    · rintro ⟨r, code, hr, -⟩
      cases hr
    · intro h
      exact absurd h.1 hlen

/-- `"<?php 1;"` is evaluated as `" 1;"`. -/
theorem runFile_evaluates_openTag :
    ∃ r code, zendWingRunFile countingCsp ⟨none, none⟩ decryptSucceeds
        (maskedText countingCsp [0x6B, 0] [0x3C, 0x3F, 0x70, 0x68, 0x70, 0x20, 0x31, 0x3B])
        (some [0x6B, 0]) = some r ∧
      r.eval = some code ∧ code.text = some [0x20, 0x31, 0x3B] := by
  have hpw : encryptPassword (some [0x6B, 0]) ⟨none, none⟩ = some [0x6B, 0] := by decide
  have hfile := wingEncryptFile_succeed countingCsp encryptSucceeds_succeed
    [0x3C, 0x3F, 0x70, 0x68, 0x70, 0x20, 0x31, 0x3B] [0x6B, 0]
  exact (runFile_evaluates_iff countingCsp encryptSucceeds_succeed decryptSucceeds_succeed hpw hpw
    hfile).mpr ⟨by decide, by decide, fun _ => by decide⟩

/-- `"<a"` is encrypted successfully, and evaluated from two bytes behind the block. -/
theorem short_tag_leaves_block :
    zendWingEncryptFile countingCsp ⟨none, none⟩ encryptSucceeds [0x3C, 0x61] (some [0x6B, 0]) =
      some ⟨true, some [0x3C, 0x60]⟩ ∧
    zendWingRunFile countingCsp ⟨none, none⟩ decryptSucceeds [0x3C, 0x60] (some [0x6B, 0]) =
      some ⟨true, some ⟨[0x3C, 0x61, 0], 5⟩⟩ ∧
    RunCode.text ⟨[0x3C, 0x61, 0], 5⟩ = none ∧ codeOf [0x3C, 0x61] = [0x3C, 0x61] := by
  have hdecrypt : wingDecryptFile countingCsp decryptSucceeds [0x3C, 0x60] [0x6B, 0] =
      some ⟨true, some ⟨[0x3C, 0x61, 0], 2⟩⟩ :=
    wingDecryptFile_succeed countingCsp decryptSucceeds_succeed (by decide) [0x6B, 0]
  exact ⟨wingEncryptFile_succeed countingCsp encryptSucceeds_succeed [0x3C, 0x61] [0x6B, 0],
    runFile_of_block _ (by decide) hdecrypt (by decide), by decide, by decide⟩

end WingPhp.Encrypt
