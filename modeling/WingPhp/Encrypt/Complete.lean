import WingPhp.Encrypt.Chunks

/-!
# What a return value of TRUE says

A call that fails before the loop makes both functions return FALSE.  A call that fails
inside the loop leaves it through the same `break` as its normal end, and the functions
return TRUE with the part done so far (`wingEncryptFile_spec`, `wingDecryptFile_spec`); then
`wing_run_file` evaluates that part.  `wingDecryptFile_wingEncryptFile` is the
round trip when no call fails, `returns_true_complete_iff` says exactly when a
TRUE can be believed.
-/

namespace WingPhp.Encrypt

open StreamCipher

variable (csp : List UInt8 → Nat → UInt8)

/-- The whole of `text` masked from position `0`: what a complete run produces. -/
def maskedText (password text : List UInt8) : List UInt8 := maskFrom (rc4Mask csp password) 0 text

theorem length_maskedText (password text : List UInt8) :
    (maskedText csp password text).length = text.length := length_maskFrom _ _ _

theorem rc4Mask_involutive (password : List UInt8) (i : Nat) :
    Function.Involutive (rc4Mask csp password i) := by
  intro b
  rw [rc4Mask, rc4Mask, UInt8.xor_assoc, UInt8.xor_self, UInt8.xor_zero]

theorem maskedText_maskedText (password text : List UInt8) :
    maskedText csp password (maskedText csp password text) = text :=
  maskFrom_maskFrom 0 (rc4Mask_involutive csp password) text

/-! ## The calls before the loop -/

/-- `GetCryptProv` and `GenKeyByPassword` succeed. -/
def CspCalls.Ready (c : CspCalls) : Prop :=
  getCryptProv c = true ∧ (c.createHash && c.hashData && c.deriveKey) = true

/-- Every call before the loop succeeds. -/
structure EncryptCalls.Ready (c : EncryptCalls) : Prop where
  openSource : c.openSource = true
  openDestination : c.openDestination = true
  provider : c.provider.Ready
  mallocBuffer : c.mallocBuffer = true

structure DecryptCalls.Ready (c : DecryptCalls) : Prop where
  openSource : c.openSource = true
  mallocDestination : c.mallocDestination = true
  provider : c.provider.Ready
  mallocBuffer : c.mallocBuffer = true

/-- No file call and no call to the provider fails. -/
structure EncryptCalls.Succeed (c : EncryptCalls) : Prop extends c.Ready where
  chunk : ∀ k, c.chunk k = ⟨.all, true⟩
  fwrite : ∀ k, c.fwrite k = .all

structure DecryptCalls.Succeed (c : DecryptCalls) : Prop extends c.Ready where
  chunk : ∀ k, c.chunk k = ⟨.all, true⟩

theorem genKeyByPassword_ready {c : CspCalls} (h : c.Ready) (password : List UInt8) :
    genKeyByPassword csp c password = some ⟨rc4Mask csp password, 0⟩ := if_pos h.2

theorem genKeyByPassword_none {c : CspCalls} (password : List UInt8)
    (h : (c.createHash && c.hashData && c.deriveKey) = false) :
    genKeyByPassword csp c password = none := if_neg (by simp [h])

theorem doneFrom_all {calls : Nat → ChunkCalls} {transfer : Nat → Transfer}
    (hcalls : ∀ k, calls k = ⟨.all, true⟩) (htransfer : ∀ k, transfer k = .all) (n : Nat) :
    DoneFrom calls transfer n 0 := by
  intro k _ _
  refine ⟨?_, ?_, .inl (htransfer k)⟩ <;> rw [hcalls k]

/-! ## `WingEncryptFile` -/

theorem wingEncryptFile_not_ready {c : EncryptCalls} (h : ¬ c.Ready) (source password : List UInt8) :
    ∃ destination, wingEncryptFile csp c source password = some ⟨false, destination⟩ := by
  unfold wingEncryptFile
  by_cases h1 : c.openSource = true
  · by_cases h2 : c.openDestination = true
    · by_cases h3 : getCryptProv c.provider = true
      · by_cases h4 : (c.provider.createHash && c.provider.hashData && c.provider.deriveKey) = true
        · have h5 : ¬ c.mallocBuffer = true := fun h5 => h ⟨h1, h2, ⟨h3, h4⟩, h5⟩
          refine ⟨some [], ?_⟩
          rw [genKeyByPassword_ready csp ⟨h3, h4⟩]
          simp [h1, h2, h3, h5]
        · refine ⟨some [], ?_⟩
          rw [genKeyByPassword_none csp password (by simpa using h4)]
          simp [h1, h2, h3]
      · exact ⟨some [], by simp [h1, h2, h3]⟩
    · exact ⟨none, by simp [h1, h2]⟩
  · exact ⟨none, by simp [h1]⟩

/-- Once in the loop the answer is TRUE; the destination is complete when every chunk is. -/
theorem wingEncryptFile_ready {c : EncryptCalls} (h : c.Ready) (source password : List UInt8) :
    ∃ written, wingEncryptFile csp c source password = some ⟨true, some written⟩ ∧
      (written = maskedText csp password source ↔
        DoneFrom c.chunk c.fwrite source.length 0) := by
  obtain ⟨s', text, hloop, rfl, hpre, hiff⟩ :=
    cryptLoop_spec (fwriteSink_takes c.fwrite (maskFrom (rc4Mask csp password) 0 source)) c.chunk
      (source.length + 1) 0 [] source [] (Nat.lt_succ_self _) rfl rfl rfl
  refine ⟨s', ?_, ?_⟩
  · rw [wingEncryptFile, genKeyByPassword_ready csp h.provider]
    simp only [h.openSource, h.openDestination, h.provider.1, h.mallocBuffer, Bool.not_true,
      Bool.false_eq_true, if_false]
    exact congrArg _ hloop
  · rw [← hiff, maskedText]
    constructor
    · intro he
      rw [he, length_maskFrom]
    · intro hlen
      exact hpre.eq_of_length (by rw [hlen, length_maskFrom])

/-- **The answer of `WingEncryptFile`** can be believed: TRUE only with the whole source
encrypted in the destination. -/
def EncryptComplete (c : EncryptCalls) (source password : List UInt8) : Prop :=
  ∃ r, wingEncryptFile csp c source password = some r ∧
    (r.ret = true → r.destination = some (maskedText csp password source))

theorem encryptComplete_iff (c : EncryptCalls) (source password : List UInt8) :
    EncryptComplete csp c source password ↔
      ¬ c.Ready ∨ DoneFrom c.chunk c.fwrite source.length 0 := by
  by_cases h : c.Ready
  · obtain ⟨written, hrun, hiff⟩ := wingEncryptFile_ready csp h source password
    rw [EncryptComplete, hrun]
    simp [h, hiff]
  · obtain ⟨destination, hrun⟩ := wingEncryptFile_not_ready csp h source password
    rw [EncryptComplete, hrun]
    simp [h]

/-! ## `WingDecryptFile` -/

theorem wingDecryptFile_not_ready {c : DecryptCalls} (h : ¬ c.Ready) (file password : List UInt8) :
    wingDecryptFile csp c file password = some ⟨false, none⟩ := by
  unfold wingDecryptFile
  by_cases h1 : c.openSource = true
  · by_cases h2 : c.mallocDestination = true
    · by_cases h3 : getCryptProv c.provider = true
      · by_cases h4 : (c.provider.createHash && c.provider.hashData && c.provider.deriveKey) = true
        · have h5 : ¬ c.mallocBuffer = true := fun h5 => h ⟨h1, h2, ⟨h3, h4⟩, h5⟩
          rw [genKeyByPassword_ready csp ⟨h3, h4⟩]
          simp [h1, h2, h3, h5]
        · rw [genKeyByPassword_none csp password (by simpa using h4)]
          simp [h1, h2, h3]
      · simp [h1, h2, h3]
    · simp [h1, h2]
  · simp [h1]

theorem wingDecryptFile_loop {c : DecryptCalls} (h : c.Ready) (file password : List UInt8) :
    wingDecryptFile csp c file password =
      (cryptLoop memcpySink (sizeT (filelength file)) c.chunk 0 ⟨rc4Mask csp password, 0⟩ file 0
        ⟨List.replicate (sizeT (filelength file + 1)) 0, 0⟩).map fun t => ⟨true, some t⟩ := by
  rw [wingDecryptFile, genKeyByPassword_ready csp h.provider]
  simp [h.openSource, h.mallocDestination, h.provider.1, h.mallocBuffer]

/-- Once in the loop the answer is TRUE, and the block holds the text so far and zeros. -/
theorem wingDecryptFile_ready {c : DecryptCalls} (h : c.Ready) {file : List UInt8}
    (hlen : file.length < 0x80000000) (password : List UInt8) :
    ∃ t text, wingDecryptFile csp c file password = some ⟨true, some t⟩ ∧
      Text.Holds (file.length + 1) t text ∧ text <+: maskedText csp password file ∧
      (text.length = file.length ↔ DoneFrom c.chunk (fun _ => .all) file.length 0) := by
  have hroom : sizeT (filelength file + 1) = file.length + 1 := by
    rw [filelength, if_pos hlen, sizeT]
    omega
  have hstart : Text.Holds (file.length + 1) ⟨List.replicate (file.length + 1) 0, 0⟩
      (maskFrom (rc4Mask csp password) 0 []) := ⟨rfl, rfl⟩
  have htakes : Takes memcpySink (fun _ => .all) (Text.Holds (file.length + 1))
      (maskFrom (rc4Mask csp password) 0 file) :=
    memcpySink_takes (by rw [length_maskFrom]; omega)
  obtain ⟨t, text, hloop, ht, hpre, hiff⟩ := cryptLoop_spec htakes c.chunk (file.length + 1) 0 []
    file _ (Nat.lt_succ_self _) rfl rfl hstart
  refine ⟨t, text, ?_, ht, hpre, hiff⟩
  rw [wingDecryptFile_loop csp h, hroom]
  exact congrArg _ hloop

/-- For a file whose length a `long` cannot hold the block has no bytes at all. -/
theorem wingDecryptFile_long {c : DecryptCalls} (h : c.Ready) {file : List UInt8}
    (hlen : ¬ file.length < 0x80000000) (password : List UInt8) :
    wingDecryptFile csp c file password = none ∨
      wingDecryptFile csp c file password = some ⟨true, some ⟨[], 0⟩⟩ := by
  rw [wingDecryptFile_loop csp h]
  have hroom : List.replicate (sizeT (filelength file + 1)) (0 : UInt8) = [] := by
    rw [filelength, if_neg hlen]
    rfl
  rw [hroom]
  by_cases hcalls : (c.chunk 0).fread = .all ∧ (c.chunk 0).crypt = true
  · -- the first `memcpy` leaves the block
    have hbuffer : ¬ 0 + (maskFrom (rc4Mask csp password) 0 (file.take 1000)).length ≤
        ([] : List UInt8).length := by
      rw [length_maskFrom, List.length_take, List.length_nil]
      omega
    left
    rw [cryptLoop_overrun _ hcalls.1 hcalls.2 (if_neg hbuffer)]
    rfl
  · right
    rw [cryptLoop_failed _ _ _ _ hcalls]
    rfl

/-- The result buffer holds the whole file decrypted, and the NUL behind it. -/
def Decrypted.Complete (r : Decrypted) (file password : List UInt8) : Prop :=
  r.szDestination = some ⟨maskedText csp password file ++ [0], file.length⟩

/-- **The answer of `WingDecryptFile`** can be believed. -/
def DecryptComplete (c : DecryptCalls) (file password : List UInt8) : Prop :=
  ∃ r, wingDecryptFile csp c file password = some r ∧
    (r.ret = true → r.Complete csp file password)

/-- Every chunk of a file that fits was read and decrypted. -/
def DecryptCalls.AllChunks (c : DecryptCalls) (file : List UInt8) : Prop :=
  file.length < 0x80000000 ∧ DoneFrom c.chunk (fun _ => .all) file.length 0

theorem allChunks_iff {c : DecryptCalls} {file : List UInt8} (hlen : file.length < 0x80000000) :
    c.AllChunks file ↔ DoneFrom c.chunk (fun _ => .all) file.length 0 := and_iff_right hlen

theorem not_allChunks {c : DecryptCalls} {file : List UInt8} (hlen : ¬ file.length < 0x80000000) :
    ¬ c.AllChunks file := fun h => hlen h.1

theorem complete_iff {file password : List UInt8} {t : Text} {text : List UInt8}
    (ht : Text.Holds (file.length + 1) t text) (hpre : text <+: maskedText csp password file) :
    (⟨true, some t⟩ : Decrypted).Complete csp file password ↔ text.length = file.length := by
  rw [Decrypted.Complete, Option.some.injEq]
  constructor
  · intro he
    rw [← ht.start_eq, he]
  · intro hlen
    have htext : text = maskedText csp password file :=
      hpre.eq_of_length (by rw [hlen, length_maskedText])
    obtain ⟨block, start⟩ := t
    obtain ⟨hstart, hblock⟩ := ht
    simp only at hstart hblock
    rw [hstart, hblock, hlen, htext, Nat.add_sub_cancel_left]
    rfl

theorem decryptComplete_iff (c : DecryptCalls) (file password : List UInt8) :
    DecryptComplete csp c file password ↔ ¬ c.Ready ∨ c.AllChunks file := by
  by_cases h : c.Ready
  · by_cases hlen : file.length < 0x80000000
    · obtain ⟨t, text, hrun, ht, hpre, hiff⟩ := wingDecryptFile_ready csp h hlen password
      rw [DecryptComplete, hrun]
      simp [h, allChunks_iff hlen, complete_iff csp ht hpre, hiff]
    · obtain hrun | hrun := wingDecryptFile_long csp h hlen password <;>
        rw [DecryptComplete, hrun] <;> simp [h, not_allChunks hlen, Decrypted.Complete]
  · rw [DecryptComplete, wingDecryptFile_not_ready csp h]
    simp [h]

/-! ## The round trip -/

theorem wingEncryptFile_succeed {c : EncryptCalls} (h : c.Succeed) (source password : List UInt8) :
    wingEncryptFile csp c source password =
      some ⟨true, some (maskedText csp password source)⟩ := by
  obtain ⟨written, hrun, hiff⟩ := wingEncryptFile_ready csp h.toReady source password
  rw [hrun, hiff.mpr (doneFrom_all h.chunk h.fwrite _)]

theorem wingDecryptFile_succeed {c : DecryptCalls} (h : c.Succeed) {file : List UInt8}
    (hlen : file.length < 0x80000000) (password : List UInt8) :
    wingDecryptFile csp c file password =
      some ⟨true, some ⟨maskedText csp password file ++ [0], file.length⟩⟩ := by
  obtain ⟨t, text, hrun, ht, hpre, hiff⟩ := wingDecryptFile_ready csp h.toReady hlen password
  have := (complete_iff csp ht hpre).mpr (hiff.mpr (doneFrom_all h.chunk (fun _ => rfl) _))
  rw [hrun]
  exact congrArg (fun d => some (Decrypted.mk true d)) this

/-- A provider whose keystream counts, and calls that all succeed. -/
def countingCsp : List UInt8 → Nat → UInt8 := fun _ i => UInt8.ofNat i

def providerSucceeds : CspCalls := ⟨true, false, true, true, true⟩

def encryptSucceeds : EncryptCalls where
  openSource := true
  openDestination := true
  provider := providerSucceeds
  mallocBuffer := true
  chunk := fun _ => ⟨.all, true⟩
  fwrite := fun _ => .all

def decryptSucceeds : DecryptCalls where
  openSource := true
  mallocDestination := true
  provider := providerSucceeds
  mallocBuffer := true
  chunk := fun _ => ⟨.all, true⟩

theorem encryptSucceeds_succeed : encryptSucceeds.Succeed :=
  ⟨⟨rfl, rfl, ⟨rfl, rfl⟩, rfl⟩, fun _ => rfl, fun _ => rfl⟩

theorem decryptSucceeds_succeed : decryptSucceeds.Succeed :=
  ⟨⟨rfl, rfl, ⟨rfl, rfl⟩, rfl⟩, fun _ => rfl⟩

/-- **Round trip.**  In runs where no file or provider call fails, decrypting with the same
password what `WingEncryptFile` wrote gives the source and a NUL behind it. -/
theorem wingDecryptFile_wingEncryptFile {ce : EncryptCalls} {cd : DecryptCalls} (he : ce.Succeed)
    (hd : cd.Succeed) {source : List UInt8} (hlen : source.length < 0x7FFFFFFF)
    (password : List UInt8) :
    ∃ file, wingEncryptFile csp ce source password = some ⟨true, some file⟩ ∧
      wingDecryptFile csp cd file password =
        some ⟨true, some ⟨source ++ [0], source.length⟩⟩ := by
  refine ⟨_, wingEncryptFile_succeed csp he source password, ?_⟩
  rw [wingDecryptFile_succeed csp hd (by rw [length_maskedText]; omega), maskedText_maskedText,
    length_maskedText]

/-- `"<?php"` under the password `"k"`. -/
theorem wingDecryptFile_wingEncryptFile_openTag :
    ∃ file, wingEncryptFile countingCsp encryptSucceeds [0x3C, 0x3F, 0x70, 0x68, 0x70] [0x6B, 0] =
        some ⟨true, some file⟩ ∧
      wingDecryptFile countingCsp decryptSucceeds file [0x6B, 0] =
        some ⟨true, some ⟨[0x3C, 0x3F, 0x70, 0x68, 0x70, 0], 5⟩⟩ :=
  wingDecryptFile_wingEncryptFile countingCsp encryptSucceeds_succeed decryptSucceeds_succeed
    (by decide) [0x6B, 0]

end WingPhp.Encrypt
