import WingPhp.Encrypt.DzRun

/-!
# `wing_dz_encrypt_file`

The `WingEncryptFile` of `encrypc.c` leaves its loop with FALSE when a call in it fails, where the one of
`wing_encrypt_file` leaves it with TRUE.  `dzEncryptFile_ret` says what a TRUE is worth: the whole source
is in the destination, if there was something to write.  Files that cannot be opened are not noticed: a
source that is missing faults at once, a destination at the first `fwrite`.
-/

namespace WingPhp.Encrypt

open Memory List Strings StreamCipher

/-- The loop from turn `k` on: what is returned, and the destination. -/
def dzEncryptLoop (hDestination : Bool) (size : Nat) (calls : Nat → ChunkCalls) (fwrite : Nat → Transfer) (k : Nat)
    (key : Key UInt8) (rest : List UInt8) (readSize : Nat) (written : List UInt8) :
    Option (Bool × List UInt8) :=
  match (calls k).fread with
  | .failed _ => some (false, written)
  | .all =>
    -- `dwCount<=0`
    if rest.length = 0 then some (true, written)
    else if (calls k).crypt then
      let eof := decide (rest.length < dwBlockLen)
      let (buffer, key') := key.apply eof (rest.take dwBlockLen)
      if !hDestination then none
      else
        let written' := written ++ buffer.take ((fwrite k).count buffer.length)
        if fwrite k ≠ .all then some (false, written')
        else
          let readSize' := (readSize + buffer.length) % 0x100000000
          if size ≤ readSize' then some (true, written')
          else if rest.length < dwBlockLen then some (true, written')
          else dzEncryptLoop hDestination size calls fwrite (k + 1) key' (rest.drop dwBlockLen) readSize' written'
    else some (false, written)
  termination_by rest.length
  decreasing_by
    rename_i hlen
    rw [dwBlockLen_eq] at *
    rw [List.length_drop]
    omega

variable (csp : List UInt8 → Nat → UInt8)

/-- The `WingEncryptFile` of `encrypc.c`. -/
def dzEncryptFile (c : EncryptCalls) (source password : List UInt8) : Option Encrypted :=
  if !c.openSource then none
  else
    let destination := if c.openDestination then some [] else none
    if !getCryptProv c.provider then some ⟨false, destination⟩
    else
      match genKeyByPassword csp c.provider password with
      | none => some ⟨false, destination⟩
      | some key =>
        if !c.mallocBuffer then some ⟨false, destination⟩
        else
          (dzEncryptLoop c.openDestination (sizeT (filelength source)) c.chunk c.fwrite 0 key source 0 []).map
            fun (ret, written) => ⟨ret, if c.openDestination then some written else none⟩

/-- `wing_dz_encrypt_file`, and the temp directory after it. -/
def zendWingDzEncryptFile (m : Machine) (c : EncryptCalls) (source : List UInt8) (temp : TempDir) :
    Except Fault (TempDir × Encrypted) :=
  if !m.getTempPath then .ok (temp, ⟨false, none⟩)
  else do
    let (processorId, pidFile) ← cachedId temp.processorId (getCpuId m.processors)
    let (serialNumber, snFile) ← cachedId temp.serialNumber (getSerialNumber m.crt m.physicalMedia)
    match processorId, serialNumber with
    | some processorId, some serialNumber => do
      let pid ← loadText (some processorId)
      let sn ← loadText (some serialNumber)
      match dzEncryptFile csp c source (passwordOf (pid ++ sn)) with
      | none => .error .outside
      | some res => .ok (⟨pidFile, snFile⟩, res)
    | _, _ => .ok (⟨pidFile, snFile⟩, ⟨false, none⟩)

/-! ## What a TRUE is worth -/

section Loop

variable {hDestination : Bool} {calls : Nat → ChunkCalls} {fwrite : Nat → Transfer} {mask : Nat → UInt8 → UInt8}
  {file : List UInt8}

/-- A turn that does not leave the loop with FALSE put its chunk into the destination. -/
theorem dzEncryptLoop_turn {size k : Nat} {key : Key UInt8} {rest : List UInt8} (hrest : rest ≠ []) {readSize : Nat}
    {written w : List UInt8}
    (h : dzEncryptLoop hDestination size calls fwrite k key rest readSize written = some (true, w)) :
    hDestination = true ∧
      (if size ≤ (readSize + min 1000 rest.length) % 0x100000000 ∨ rest.length < 1000 then
        w = written ++ maskFrom key.mask key.pos (rest.take 1000)
      else
        dzEncryptLoop hDestination size calls fwrite (k + 1) ⟨key.mask, key.pos + 1000⟩ (rest.drop 1000)
          ((readSize + 1000) % 0x100000000) (written ++ maskFrom key.mask key.pos (rest.take 1000)) =
          some (true, w)) := by
  have hpos : ¬ rest.length = 0 := fun hlen => hrest (List.length_eq_zero_iff.mp hlen)
  rw [dzEncryptLoop] at h
  cases hread : (calls k).fread with
  | failed moved =>
    rw [hread] at h
    simp at h
  | all =>
    simp only [hread, if_neg hpos, Key.apply, dwBlockLen_eq, length_maskFrom, List.length_take] at h
    by_cases hcrypt : (calls k).crypt = true
    · rw [if_pos hcrypt] at h
      cases hDestination with
      | false => simp at h
      | true =>
        refine ⟨rfl, ?_⟩
        by_cases hmoved : fwrite k = .all
        · have hwhole : (maskFrom key.mask key.pos (rest.take 1000)).take (min 1000 rest.length) =
              maskFrom key.mask key.pos (rest.take 1000) := by
            rw [List.take_of_length_le]
            simp
          simp only [hmoved, Transfer.count, hwhole, Bool.not_true, Bool.false_eq_true, if_false, ne_eq,
            not_true] at h
          by_cases hsize : size ≤ (readSize + min 1000 rest.length) % 0x100000000
          · rw [if_pos hsize] at h
            rw [if_pos (.inl hsize)]
            cases h
            rfl
          · rw [if_neg hsize] at h
            by_cases hshort : rest.length < 1000
            · rw [if_pos hshort] at h
              rw [if_pos (.inr hshort)]
              cases h
              rfl
            · rw [if_neg hshort] at h
              rw [if_neg fun hend => hend.elim hsize hshort]
              have hmin : min 1000 rest.length = 1000 := by omega
              simpa only [hmin, decide_eq_true_eq, hshort, if_false, decide_false, Bool.false_eq_true] using h
        · simp [hmoved] at h
    · rw [if_neg hcrypt] at h
      simp at h

/-- **The loop** ends with TRUE on the whole file masked only. -/
theorem dzEncryptLoop_true {k : Nat} {front rest w : List UInt8} (hfile : file = front ++ rest)
    (hfront : front.length = 1000 * k)
    (h : dzEncryptLoop hDestination (sizeT (filelength file)) calls fwrite k ⟨mask, front.length⟩ rest
      (front.length % 0x100000000) (maskFrom mask 0 front) = some (true, w)) :
    w = maskFrom mask 0 file ∧ (rest ≠ [] → hDestination = true) := by
  induction hn : rest.length using Nat.strongRecOn generalizing k front rest with
  | ind n ih =>
    subst hn
    by_cases hrest : rest = []
    · subst hrest
      refine ⟨?_, fun hne => absurd rfl hne⟩
      rw [dzEncryptLoop] at h
      cases hread : (calls k).fread with
      | failed moved =>
        rw [hread] at h
        simp at h
      | all =>
        simp only [hread, List.length_nil, if_true, Option.some.injEq, Prod.mk.injEq, true_and] at h
        rw [← h, hfile, List.append_nil]
    · obtain ⟨hdest, hturn⟩ := dzEncryptLoop_turn hrest h
      refine ⟨?_, fun _ => hdest⟩
      have hjoin : maskFrom mask 0 front ++ maskFrom mask front.length (rest.take 1000) =
          maskFrom mask 0 (front ++ rest.take 1000) := by
        rw [maskFrom_append, Nat.zero_add]
      have hlen : file.length = 1000 * k + rest.length := by
        rw [hfile, List.length_append, hfront]
      by_cases hend : sizeT (filelength file) ≤ (front.length % 0x100000000 + min 1000 rest.length) % 0x100000000 ∨
          rest.length < 1000
      · -- the byte count or the end of file: nothing is left
        have hall : rest.length ≤ 1000 := by
          rcases hend with hsize | hshort
          · have hcount : min 1000 rest.length = min 1000 (file.length - 1000 * k) := by omega
            have := end_of_size_le hcount (hfront ▸ hsize)
            omega
          · exact Nat.le_of_lt hshort
        rw [if_pos hend] at hturn
        rw [hturn, hjoin, List.take_of_length_le hall, hfile]
      · rw [if_neg hend] at hturn
        have hlong : 1000 ≤ rest.length := Nat.le_of_not_lt fun hshort => hend (.inr hshort)
        have hnext : (front ++ rest.take 1000).length = front.length + 1000 := by
          rw [List.length_append, List.length_take_of_le hlong]
        rw [hjoin, Nat.mod_add_mod, ← hnext] at hturn
        refine (ih (rest.drop 1000).length ?_ ?_ ?_ hturn rfl).1
        · rw [List.length_drop]
          omega
        · rw [List.append_assoc, List.take_append_drop, hfile]
        · omega

/-- When no call fails it ends with TRUE. -/
theorem dzEncryptLoop_succeed (hcalls : ∀ k, calls k = ⟨.all, true⟩) (hfwrite : ∀ k, fwrite k = .all) (size k : Nat)
    (key : Key UInt8) (rest : List UInt8) (readSize : Nat) (written : List UInt8) :
    ∃ w, dzEncryptLoop true size calls fwrite k key rest readSize written = some (true, w) := by
  induction hn : rest.length using Nat.strongRecOn generalizing k key rest readSize written with
  | ind n ih =>
    subst hn
    rw [dzEncryptLoop]
    simp only [hcalls, hfwrite, if_true, Bool.not_true, Bool.false_eq_true, if_false, ne_eq, not_true, Key.apply,
      dwBlockLen_eq]
    by_cases hpos : rest.length = 0
    · exact ⟨written, if_pos hpos⟩
    · rw [if_neg hpos]
      split
      · exact ⟨_, rfl⟩
      · split
        · exact ⟨_, rfl⟩
        · refine ih (rest.drop 1000).length ?_ _ _ _ _ _ rfl
          rw [List.length_drop]
          omega

end Loop

/-- **A TRUE of `encrypc.c` can be believed**, whatever failed: every byte of the source is in the
destination.  Only for an empty source it may be missing. -/
theorem dzEncryptFile_ret {c : EncryptCalls} {source password : List UInt8} {res : Encrypted}
    (h : dzEncryptFile csp c source password = some res) (hret : res.ret = true) (hne : source ≠ []) :
    res.destination = some (maskedText csp password source) ∧ c.openSource = true ∧ c.openDestination = true := by
  unfold dzEncryptFile at h
  cases hopen : c.openSource with
  | false => simp [hopen] at h
  | true =>
    simp only [hopen, Bool.not_true, Bool.false_eq_true, if_false] at h
    cases hprov : getCryptProv c.provider with
    | false =>
      rw [hprov] at h
      cases h
      cases hret
    | true =>
      cases hkey : genKeyByPassword csp c.provider password with
      | none =>
        rw [hprov, hkey] at h
        cases h
        cases hret
      | some key =>
        cases hbuffer : c.mallocBuffer with
        | false =>
          rw [hprov, hkey, hbuffer] at h
          cases h
          cases hret
        | true =>
          simp only [hprov, hkey, hbuffer, Bool.not_true, Bool.false_eq_true, if_false] at h
          obtain ⟨⟨ret, written⟩, hloop, rfl⟩ := Option.map_eq_some_iff.mp h
          have hkey' : key = ⟨rc4Mask csp password, 0⟩ := by
            obtain ⟨-, hk⟩ := Option.ite_none_right_eq_some.mp hkey
            exact (Option.some.inj hk).symm
          subst hkey'
          have hret' : ret = true := hret
          subst hret'
          obtain ⟨hwritten, hdest⟩ := @dzEncryptLoop_true _ _ _ _ source 0 [] source written rfl rfl hloop
          have hdestination := hdest hne
          refine ⟨?_, rfl, hdestination⟩
          rw [hdestination, hwritten]
          rfl

/-- When no call fails the answer is TRUE. -/
theorem dzEncryptFile_succeed {c : EncryptCalls} (h : c.Succeed) (source password : List UInt8) :
    ∃ res, dzEncryptFile csp c source password = some res ∧ res.ret = true := by
  obtain ⟨w, hloop⟩ := dzEncryptLoop_succeed h.chunk h.fwrite (sizeT (filelength source)) 0
    ⟨rc4Mask csp password, 0⟩ source 0 []
  refine ⟨⟨true, some w⟩, ?_, rfl⟩
  rw [dzEncryptFile, genKeyByPassword_ready csp h.provider]
  simp [h.openSource, h.openDestination, h.provider.1, h.mallocBuffer, hloop]

end WingPhp.Encrypt
