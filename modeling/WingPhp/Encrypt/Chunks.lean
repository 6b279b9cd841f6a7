import WingPhp.Encrypt.File

/-!
# What the chunk loop leaves behind

Whatever the calls do, the destination holds the first bytes of the masked file,
and it holds all of them exactly when every chunk went through
(`cryptLoop_spec`).  The induction is on what is left to read; the invariant is that
turn `k` starts at byte `1000 * k` with everything before it handed on.
`fwriteSink_takes` and `memcpySink_takes` say that both destinations take a chunk the way
the induction needs.
-/

namespace WingPhp.Encrypt

open StreamCipher

/-- Chunk `k` of a file of `n` bytes went through: it was read, masked and moved whole.  An
error after all of it was moved does no harm on the last chunk. -/
def ChunkDone (calls : Nat → ChunkCalls) (transfer : Nat → Transfer) (n k : Nat) : Prop :=
  (calls k).fread = .all ∧ (calls k).crypt = true ∧
    (transfer k = .all ∨
      n ≤ 1000 * (k + 1) ∧ (transfer k).count (n - 1000 * k) = n - 1000 * k)

/-- Every chunk from turn `k` on went through. -/
def DoneFrom (calls : Nat → ChunkCalls) (transfer : Nat → Transfer) (n k : Nat) : Prop :=
  ∀ i, k ≤ i → 1000 * i < n → ChunkDone calls transfer n i

/-- `sink` puts as much of the chunk as `transfer` says behind the text `Holds` speaks of, as
long as the text stays a prefix of `whole`. -/
def Takes {σ : Type} (sink : Nat → σ → List UInt8 → Option (σ × Bool)) (transfer : Nat → Transfer)
    (Holds : σ → List UInt8 → Prop) (whole : List UInt8) : Prop :=
  ∀ k s text buffer, Holds s text → text ++ buffer <+: whole →
    ∃ s', sink k s buffer = some (s', decide (transfer k = .all)) ∧
      Holds s' (text ++ buffer.take ((transfer k).count buffer.length))

theorem Transfer.count_le (t : Transfer) (n : Nat) : t.count n ≤ n := by
  cases t with
  | all => exact Nat.le_refl n
  | failed moved => exact Nat.min_le_right moved n

theorem doneFrom_end (calls : Nat → ChunkCalls) (transfer : Nat → Transfer) {n k : Nat}
    (h : n ≤ 1000 * k) : DoneFrom calls transfer n k := by
  intro i hki hi
  omega

theorem doneFrom_iff {calls : Nat → ChunkCalls} {transfer : Nat → Transfer} {n k : Nat}
    (h : 1000 * k < n) :
    DoneFrom calls transfer n k ↔
      ChunkDone calls transfer n k ∧ DoneFrom calls transfer n (k + 1) := by
  constructor
  · intro hd
    exact ⟨hd k (Nat.le_refl k) h, fun i hki hi => hd i (by omega) hi⟩
  · rintro ⟨hk, hd⟩ i hki hi
    rcases Nat.eq_or_lt_of_le hki with rfl | hlt
    · exact hk
    · exact hd i hlt hi

theorem doneFrom_last {calls : Nat → ChunkCalls} {transfer : Nat → Transfer} {n k : Nat}
    (h : ChunkDone calls transfer n k) (hend : n ≤ 1000 * (k + 1)) : DoneFrom calls transfer n k := by
  intro i hki hi
  rwa [show i = k by omega]

/-- Behind a call that failed nothing may be left. -/
theorem doneFrom_failed {calls : Nat → ChunkCalls} (transfer : Nat → Transfer) {n k : Nat}
    (hk : 1000 * k ≤ n) (h : ¬ ((calls k).fread = .all ∧ (calls k).crypt = true)) :
    1000 * k = n ↔ DoneFrom calls transfer n k := by
  constructor
  · intro he
    exact doneFrom_end calls transfer (by omega)
  · intro hd
    by_cases hlast : 1000 * k < n
    · obtain ⟨hr, hc, -⟩ := hd k (Nat.le_refl k) hlast
      exact absurd ⟨hr, hc⟩ h
    · omega

/-- A chunk cut short is done when it is the last and went through to its end. -/
theorem doneFrom_cut {calls : Nat → ChunkCalls} {transfer : Nat → Transfer} {n k r : Nat}
    (hn : n = 1000 * k + r) (hr : (calls k).fread = .all) (hc : (calls k).crypt = true)
    (ht : transfer k ≠ .all) :
    1000 * k + (transfer k).count (min 1000 r) = n ↔ DoneFrom calls transfer n k := by
  have hcount := (transfer k).count_le (min 1000 r)
  have hmin : n ≤ 1000 * (k + 1) → n - 1000 * k = min 1000 r := by omega
  constructor
  · intro he
    have hend : n ≤ 1000 * (k + 1) := by omega
    refine doneFrom_last ⟨hr, hc, .inr ⟨hend, ?_⟩⟩ hend
    rw [hmin hend]
    omega
  · intro hd
    by_cases hlast : 1000 * k < n
    · obtain ⟨-, -, hall | ⟨hend, hmoved⟩⟩ := hd k (Nat.le_refl k) hlast
      · exact absurd hall ht
      · rw [hmin hend] at hmoved
        omega
    · omega

/-- The byte count reaches the length only when the file is at its end. -/
theorem end_of_size_le {file : List UInt8} {k c : Nat}
    (hc : c = min 1000 (file.length - 1000 * k))
    (hsize : sizeT (filelength file) ≤ (1000 * k % 0x100000000 + c) % 0x100000000) :
    file.length ≤ 1000 * (k + 1) := by
  unfold sizeT filelength at hsize
  split at hsize <;> omega

section Loop

variable {σ : Type} {sink : Nat → σ → List UInt8 → Option (σ × Bool)}

/-! ### One turn -/

theorem cryptLoop_failed {size : Nat} {calls : Nat → ChunkCalls} {k : Nat} (key : Key UInt8)
    (rest : List UInt8) (readSize : Nat) (s : σ)
    (h : ¬ ((calls k).fread = .all ∧ (calls k).crypt = true)) :
    cryptLoop sink size calls k key rest readSize s = some s := by
  rw [cryptLoop]
  cases hr : (calls k).fread with
  | failed moved => rfl
  | all =>
    have hc : (calls k).crypt = false := by simpa [hr] using h
    simp [hc]

theorem cryptLoop_overrun {size : Nat} {calls : Nat → ChunkCalls} {k : Nat} {key : Key UInt8}
    {rest : List UInt8} (readSize : Nat) {s : σ} (hr : (calls k).fread = .all)
    (hc : (calls k).crypt = true)
    (hsink : sink k s (maskFrom key.mask key.pos (rest.take 1000)) = none) :
    cryptLoop sink size calls k key rest readSize s = none := by
  rw [cryptLoop]
  simp [hr, hc, Key.apply, hsink]

theorem cryptLoop_ferror {size : Nat} {calls : Nat → ChunkCalls} {k : Nat} {key : Key UInt8}
    {rest : List UInt8} (readSize : Nat) {s s' : σ} (hr : (calls k).fread = .all)
    (hc : (calls k).crypt = true)
    (hsink : sink k s (maskFrom key.mask key.pos (rest.take 1000)) = some (s', false)) :
    cryptLoop sink size calls k key rest readSize s = some s' := by
  rw [cryptLoop]
  simp [hr, hc, Key.apply, hsink]

theorem cryptLoop_moved {size : Nat} {calls : Nat → ChunkCalls} {k : Nat} {key : Key UInt8}
    {rest : List UInt8} (readSize : Nat) {s s' : σ} (hr : (calls k).fread = .all)
    (hc : (calls k).crypt = true)
    (hsink : sink k s (maskFrom key.mask key.pos (rest.take 1000)) = some (s', true)) :
    cryptLoop sink size calls k key rest readSize s =
      if size ≤ (readSize + min 1000 rest.length) % 0x100000000 then some s'
      else if rest.length < 1000 then some s'
      else cryptLoop sink size calls (k + 1) ⟨key.mask, key.pos + 1000⟩ (rest.drop 1000)
        ((readSize + 1000) % 0x100000000) s' := by
  rw [cryptLoop]
  simp only [hr, hc, if_true, Key.apply, dwBlockLen_eq, hsink, length_maskFrom, List.length_take]
  by_cases hshort : rest.length < 1000
  · simp [hshort]
  · simp [hshort, Nat.min_eq_left (Nat.le_of_not_lt hshort)]

/-! ### The whole loop -/

variable {transfer : Nat → Transfer} {Holds : σ → List UInt8 → Prop} {mask : Nat → UInt8 → UInt8}
  {file : List UInt8}

/-- One chunk: the loop's first turn, when `fread` and the provider did their part. -/
theorem takes_chunk (htakes : Takes sink transfer Holds (maskFrom mask 0 file)) {k : Nat}
    {front rest : List UInt8} {s : σ} (hfile : file = front ++ rest)
    (hs : Holds s (maskFrom mask 0 front)) :
    ∃ s' text, sink k s (maskFrom mask front.length (rest.take 1000)) =
        some (s', decide (transfer k = .all)) ∧
      Holds s' text ∧ text <+: maskFrom mask 0 file ∧
      text.length = front.length + (transfer k).count (min 1000 rest.length) ∧
      (transfer k = .all → text = maskFrom mask 0 (front ++ rest.take 1000)) := by
  have hjoin : maskFrom mask 0 front ++ maskFrom mask front.length (rest.take 1000) =
      maskFrom mask 0 (front ++ rest.take 1000) := by
    rw [maskFrom_append, Nat.zero_add]
  have hpre : maskFrom mask 0 (front ++ rest.take 1000) <+: maskFrom mask 0 file := by
    refine ⟨maskFrom mask (front ++ rest.take 1000).length (rest.drop 1000), ?_⟩
    rw [hfile]
    conv_rhs => rw [← List.take_append_drop 1000 rest, ← List.append_assoc, maskFrom_append]
    rw [Nat.zero_add]
  obtain ⟨s', hsink, hs'⟩ := htakes k s _ (maskFrom mask front.length (rest.take 1000)) hs
    (hjoin ▸ hpre)
  refine ⟨s', _, hsink, hs', ?_, ?_, ?_⟩
  · refine List.IsPrefix.trans ?_ hpre
    rw [← hjoin]
    exact (List.prefix_append_right_inj _).mpr (List.take_prefix _ _)
  · have := (transfer k).count_le (min 1000 rest.length)
    simp only [List.length_append, List.length_take, length_maskFrom]
    omega
  · intro hall
    rw [hall, Transfer.count, List.take_length, hjoin]

/-- **The loop.**  Started at byte `1000 * k` with the masked bytes before it handed on. -/
theorem cryptLoop_spec (htakes : Takes sink transfer Holds (maskFrom mask 0 file))
    (calls : Nat → ChunkCalls) :
    ∀ (m k : Nat) (front rest : List UInt8) (s : σ), rest.length < m → file = front ++ rest →
      front.length = 1000 * k → Holds s (maskFrom mask 0 front) →
      ∃ s' text,
        cryptLoop sink (sizeT (filelength file)) calls k ⟨mask, front.length⟩ rest
          (front.length % 0x100000000) s = some s' ∧
        Holds s' text ∧ text <+: maskFrom mask 0 file ∧
        (text.length = file.length ↔ DoneFrom calls transfer file.length k) := by
  intro m
  induction m with
  | zero =>
    intro k front rest s hlen
    omega
  | succ m ih =>
    intro k front rest s hlen hfile hfront hs
    have hn : file.length = 1000 * k + rest.length := by
      rw [hfile, List.length_append, hfront]
    by_cases hcalls : (calls k).fread = .all ∧ (calls k).crypt = true
    · obtain ⟨hr, hc⟩ := hcalls
      obtain ⟨s', text, hsink, hs', hpre, hlength, hall⟩ := takes_chunk htakes (k := k) hfile hs
      by_cases ht : transfer k = .all
      · -- the chunk went through
        have hdone : ChunkDone calls transfer file.length k := ⟨hr, hc, .inl ht⟩
        rw [ht, Transfer.count] at hlength
        have hleave : file.length ≤ 1000 * (k + 1) →
            (text.length = file.length ↔ DoneFrom calls transfer file.length k) :=
          fun hend => iff_of_true (by omega) (doneFrom_last hdone hend)
        rw [cryptLoop_moved _ hr hc (by simpa [ht] using hsink)]
        by_cases hsize : sizeT (filelength file) ≤
            (front.length % 0x100000000 + min 1000 rest.length) % 0x100000000
        · rw [if_pos hsize]
          refine ⟨s', text, rfl, hs', hpre, hleave (end_of_size_le (k := k) rfl ?_)⟩
          rw [hfront] at hsize
          rwa [show file.length - 1000 * k = rest.length by omega]
        · rw [if_neg hsize]
          by_cases hshort : rest.length < 1000
          · rw [if_pos hshort]
            exact ⟨s', text, rfl, hs', hpre, hleave (by omega)⟩
          · rw [if_neg hshort]
            have hfront' : (front ++ rest.take 1000).length = front.length + 1000 := by
              rw [List.length_append, List.length_take]
              omega
            obtain ⟨t', text', hloop, ht', hpre', hiff⟩ := ih (k + 1) (front ++ rest.take 1000)
              (rest.drop 1000) s' (by rw [List.length_drop]; omega)
              (by rw [List.append_assoc, List.take_append_drop, hfile]) (by omega) (hall ht ▸ hs')
            have hlast : 1000 * k < file.length := by omega
            refine ⟨t', text', ?_, ht', hpre', ?_⟩
            · rw [← hloop, hfront', Nat.mod_add_mod]
            · rw [hiff, doneFrom_iff hlast, and_iff_right hdone]
      · -- `ferror( hDestination )`
        rw [cryptLoop_ferror _ hr hc (by simpa [ht] using hsink)]
        refine ⟨s', text, rfl, hs', hpre, ?_⟩
        rw [hlength, hfront]
        exact doneFrom_cut hn hr hc ht
    · -- a call failed: nothing more is handed on
      rw [cryptLoop_failed _ _ _ _ hcalls]
      refine ⟨s, _, rfl, hs, ?_, ?_⟩
      · rw [hfile, maskFrom_append]
        exact List.prefix_append _ _
      · rw [length_maskFrom, hfront]
        exact doneFrom_failed transfer (by omega) hcalls

end Loop

/-! ## The two destinations -/

theorem fwriteSink_takes (fwrite : Nat → Transfer) (whole : List UInt8) :
    Takes (fwriteSink fwrite) fwrite (fun written text => written = text) whole := by
  rintro k written text buffer rfl -
  exact ⟨_, rfl, rfl⟩

/-- `start` is behind `text`, and the rest of the block is still the zeros of `memset`. -/
structure Text.Holds (room : Nat) (t : Text) (text : List UInt8) : Prop where
  start_eq : t.start = text.length
  block_eq : t.block = text ++ List.replicate (room - text.length) 0

theorem memcpySink_takes {room : Nat} {whole : List UInt8} (hroom : whole.length ≤ room) :
    Takes memcpySink (fun _ => .all) (Text.Holds room) whole := by
  intro k t text buffer ht hpre
  have hlen := hpre.length_le
  rw [List.length_append] at hlen
  have hfit : t.start + buffer.length ≤ t.block.length := by
    rw [ht.start_eq, ht.block_eq, List.length_append, List.length_replicate]
    omega
  refine ⟨_, if_pos hfit, ?_, ?_⟩
  · simp [Transfer.count, ht.start_eq]
  · simp only [Transfer.count, List.take_length, ht.start_eq, ht.block_eq, List.take_left,
      List.length_append]
    rw [← List.drop_drop, List.drop_left, List.drop_replicate, Nat.sub_sub]

end WingPhp.Encrypt
