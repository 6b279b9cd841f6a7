import Mathlib.Algebra.Group.Nat.Defs
import Mathlib.Data.List.Induction
import WingPhp.Lib.StreamCipher

/-!
# The WebSocket frame format

A frame is a byte of flags and opcode, the length of the payload, the key it is masked with, if any, and
the payload.  The length is written in the first of three forms that holds it: in 7 bits, in 2 bytes
behind the mark 126, in 8 bytes behind the mark 127.

A reader of the format takes one frame from the front of a stream (`read`); it refuses a length that a
shorter form holds.  `read_bytes`: it finds every frame and stops at its end.  `bytes_of_read`: it accepts
nothing else.
-/

namespace FrameFormat

open StreamCipher

/-! ## Big-endian numbers -/

/-- The low `n` bytes of a number, the most significant one first. -/
def beBytes : Nat → Nat → List UInt8
  | 0, _ => []
  | n + 1, v => beBytes n (v / 256) ++ [UInt8.ofNat v]

def beValue (bs : List UInt8) : Nat := bs.foldl (fun v b => 256 * v + b.toNat) 0

@[simp] theorem length_beBytes (n v : Nat) : (beBytes n v).length = n := by
  induction n generalizing v with
  | zero => rfl
  | succ n ih => rw [beBytes, List.length_append, ih, List.length_singleton]

theorem beValue_concat (bs : List UInt8) (b : UInt8) : beValue (bs ++ [b]) = 256 * beValue bs + b.toNat := by
  rw [beValue, List.foldl_append]
  rfl

theorem beValue_beBytes {n v : Nat} (h : v < 256 ^ n) : beValue (beBytes n v) = v := by
  induction n generalizing v with
  | zero =>
    have hv : v = 0 := by simpa using h
    rw [hv]
    rfl
  | succ n ih =>
    have hhigh : v / 256 < 256 ^ n := by
      rw [Nat.pow_succ] at h
      omega
    rw [beBytes, beValue_concat, ih hhigh, UInt8.toNat_ofNat']
    omega

theorem beBytes_beValue (bs : List UInt8) : beBytes bs.length (beValue bs) = bs := by
  induction bs using List.reverseRecOn with
  | nil => rfl
  | append_singleton bs b ih =>
    have hb := b.toNat_lt
    have hhigh : (256 * beValue bs + b.toNat) / 256 = beValue bs := by omega
    have hlow : UInt8.ofNat (256 * beValue bs + b.toNat) = b := by
      apply UInt8.toNat_inj.mp
      rw [UInt8.toNat_ofNat']
      omega
    rw [List.length_append, List.length_singleton, beBytes, beValue_concat, hhigh, hlow, ih]

theorem beValue_lt (bs : List UInt8) : beValue bs < 256 ^ bs.length := by
  induction bs using List.reverseRecOn with
  | nil => decide
  | append_singleton bs b ih =>
    have hb := b.toNat_lt
    rw [beValue_concat, List.length_append, List.length_singleton, Nat.pow_succ]
    omega

/-! ## Frames -/

/-- The four bytes a payload is masked with, over and over. -/
structure MaskKey where
  bytes : List UInt8
  length_eq : bytes.length = 4
  deriving DecidableEq, Repr

def MaskKey.mask (key : MaskKey) (i : Nat) (b : UInt8) : UInt8 := b ^^^ key.bytes.getD (i % 4) 0

theorem MaskKey.involutive (key : MaskKey) (i : Nat) : Function.Involutive (key.mask i) := by
  intro b
  rw [mask, mask, UInt8.xor_assoc, UInt8.xor_self, UInt8.xor_zero]

structure Frame where
  fin : Bool
  rsv : Fin 8
  opcode : Fin 16
  key : Option MaskKey
  payload : List UInt8
  short : payload.length < 0x8000000000000000
  deriving DecidableEq, Repr

/-- A whole message of text. -/
def textFrame (key : Option MaskKey) (payload : List UInt8) (h : payload.length < 0x8000000000000000) : Frame :=
  ⟨true, 0, 1, key, payload, h⟩

def flags (fin : Bool) (rsv : Fin 8) (opcode : Fin 16) : UInt8 :=
  UInt8.ofNat (128 * fin.toNat + 16 * rsv.val + opcode.val)

def lengthBytes (masked : Bool) (n : Nat) : List UInt8 :=
  if n ≤ 125 then [UInt8.ofNat (128 * masked.toNat + n)]
  else if n ≤ 65535 then UInt8.ofNat (128 * masked.toNat + 126) :: beBytes 2 n
  else UInt8.ofNat (128 * masked.toNat + 127) :: beBytes 8 n

/-- The key and what it makes of the payload; masking undoes itself. -/
def masking : Option MaskKey → List UInt8 → List UInt8
  | none, data => data
  | some key, data => maskFrom key.mask 0 data

def keyBytes : Option MaskKey → List UInt8
  | none => []
  | some key => key.bytes

def Frame.bytes (f : Frame) : List UInt8 :=
  flags f.fin f.rsv f.opcode ::
    (lengthBytes f.key.isSome f.payload.length ++ (keyBytes f.key ++ masking f.key f.payload))

/-! ## The reader -/

/-- The first `n` bytes, and what is left. -/
def split? (n : Nat) (bs : List UInt8) : Option (List UInt8 × List UInt8) :=
  if n ≤ bs.length then some (bs.take n, bs.drop n) else none

/-- A length of `width` bytes that no shorter form holds. -/
def readWide (width least : Nat) (bs : List UInt8) : Option (Nat × List UInt8) :=
  (split? width bs).bind fun r => if least ≤ beValue r.1 then some (beValue r.1, r.2) else none

/-- Whether there is a key, and the length of the payload. -/
def readLength : List UInt8 → Option ((Bool × Nat) × List UInt8)
  | [] => none
  | b :: bs =>
    let masked := decide (128 ≤ b.toNat)
    if b.toNat % 128 ≤ 125 then some ((masked, b.toNat % 128), bs)
    else (if b.toNat % 128 = 126 then readWide 2 126 bs else readWide 8 65536 bs).map fun r => ((masked, r.1), r.2)

def readKey (masked : Bool) (bs : List UInt8) : Option (Option MaskKey × List UInt8) :=
  if masked then
    if h : 4 ≤ bs.length then some (some ⟨bs.take 4, List.length_take_of_le h⟩, bs.drop 4) else none
  else some (none, bs)

@[simp] theorem length_masking (key : Option MaskKey) (data : List UInt8) :
    (masking key data).length = data.length := by
  cases key with
  | none => rfl
  | some key => exact length_maskFrom key.mask 0 data

theorem masking_masking (key : Option MaskKey) (data : List UInt8) : masking key (masking key data) = data := by
  cases key with
  | none => rfl
  | some key => exact maskFrom_maskFrom 0 key.involutive data

/-- One frame from the front of a stream. -/
def read : List UInt8 → Option (Frame × List UInt8)
  | [] => none
  | b :: bs =>
    (readLength bs).bind fun r =>
      (readKey r.1.1 r.2).bind fun q =>
        if h : r.1.2 ≤ q.2.length ∧ r.1.2 < 0x8000000000000000 then
          some (⟨decide (128 ≤ b.toNat), Fin.ofNat 8 (b.toNat / 16), Fin.ofNat 16 b.toNat, q.1,
            masking q.1 (q.2.take r.1.2), by
              rw [length_masking, List.length_take_of_le h.1]
              exact h.2⟩, q.2.drop r.1.2)
        else none

/-- `n` frames, one after the other. -/
def readMany : Nat → List UInt8 → Option (List Frame × List UInt8)
  | 0, bs => some ([], bs)
  | n + 1, bs => (read bs).bind fun r => (readMany n r.2).map fun q => (r.1 :: q.1, q.2)

/-! ## A frame is read back -/

theorem flags_fields : ∀ (fin : Bool) (rsv : Fin 8) (opcode : Fin 16),
    decide (128 ≤ (flags fin rsv opcode).toNat) = fin ∧
      Fin.ofNat 8 ((flags fin rsv opcode).toNat / 16) = rsv ∧ Fin.ofNat 16 (flags fin rsv opcode).toNat = opcode := by
  decide

theorem split?_append {front : List UInt8} {n : Nat} (h : front.length = n) (rest : List UInt8) :
    split? n (front ++ rest) = some (front, rest) := by
  subst h
  rw [split?, if_pos (by simp), List.take_left, List.drop_left]

theorem readWide_beBytes {width least n : Nat} (hleast : least ≤ n) (h : n < 256 ^ width) (rest : List UInt8) :
    readWide width least (beBytes width n ++ rest) = some (n, rest) := by
  rw [readWide, split?_append (length_beBytes width n), Option.bind_some, beValue_beBytes h, if_pos hleast]

theorem readLength_lengthBytes (masked : Bool) {n : Nat} (h : n < 0x8000000000000000) (rest : List UInt8) :
    readLength (lengthBytes masked n ++ rest) = some ((masked, n), rest) := by
  have hmark : ∀ m, m < 128 →
      decide (128 ≤ (UInt8.ofNat (128 * masked.toNat + m)).toNat) = masked ∧
        (UInt8.ofNat (128 * masked.toNat + m)).toNat % 128 = m := by
    intro m hm
    rw [UInt8.toNat_ofNat']
    cases masked with
    | false => exact ⟨decide_eq_false (by simp; omega), by simp; omega⟩
    | true => exact ⟨decide_eq_true (by simp; omega), by simp; omega⟩
  unfold lengthBytes
  by_cases hseven : n ≤ 125
  · obtain ⟨hmasked, hn⟩ := hmark n (by omega)
    rw [if_pos hseven, List.singleton_append, readLength, hmasked, hn, if_pos hseven]
  · by_cases htwo : n ≤ 65535
    · obtain ⟨hmasked, hn⟩ := hmark 126 (by decide)
      rw [if_neg hseven, if_pos htwo, List.cons_append, readLength, hmasked, hn, if_neg (by decide), if_pos rfl,
        readWide_beBytes (by omega) (by omega)]
      rfl
    · obtain ⟨hmasked, hn⟩ := hmark 127 (by decide)
      rw [if_neg hseven, if_neg htwo, List.cons_append, readLength, hmasked, hn, if_neg (by decide),
        if_neg (by decide), readWide_beBytes (by omega) (by omega)]
      rfl

theorem readKey_keyBytes (key : Option MaskKey) (rest : List UInt8) :
    readKey key.isSome (keyBytes key ++ rest) = some (key, rest) := by
  cases key with
  | none => rfl
  | some key =>
    obtain ⟨bytes, hlen⟩ := key
    have htake : (bytes ++ rest).take 4 = bytes := by rw [← hlen, List.take_left]
    have hdrop : (bytes ++ rest).drop 4 = rest := by rw [← hlen, List.drop_left]
    have hfits : 4 ≤ (bytes ++ rest).length := by
      rw [List.length_append]
      omega
    show (if h : 4 ≤ (bytes ++ rest).length then
      some (some (⟨(bytes ++ rest).take 4, List.length_take_of_le h⟩ : MaskKey), (bytes ++ rest).drop 4)
      else none) = _
    rw [dif_pos hfits]
    simp only [htake, hdrop]

/-- **A frame is read back**, and what follows it is left. -/
theorem read_bytes (f : Frame) (rest : List UInt8) : read (f.bytes ++ rest) = some (f, rest) := by
  obtain ⟨fin, rsv, opcode, key, payload, hshort⟩ := f
  obtain ⟨hfin, hrsv, hop⟩ := flags_fields fin rsv opcode
  have hfront : ((masking key payload ++ rest).take payload.length) = masking key payload := by
    rw [← length_masking key payload, List.take_left]
  have hback : ((masking key payload ++ rest).drop payload.length) = rest := by
    rw [← length_masking key payload, List.drop_left]
  have hroom : payload.length ≤ (masking key payload ++ rest).length := by
    rw [List.length_append, length_masking]
    omega
  show read (flags fin rsv opcode ::
    (lengthBytes key.isSome payload.length ++ (keyBytes key ++ masking key payload) ++ rest)) = _
  rw [read, List.append_assoc, readLength_lengthBytes _ hshort, Option.bind_some, List.append_assoc]
  dsimp only
  rw [readKey_keyBytes, Option.bind_some]
  dsimp only
  rw [dif_pos ⟨hroom, hshort⟩]
  simp only [hfin, hrsv, hop, hfront, hback, masking_masking]

theorem readMany_bytes (fs : List Frame) (rest : List UInt8) :
    readMany fs.length (fs.flatMap Frame.bytes ++ rest) = some (fs, rest) := by
  induction fs with
  | nil => rfl
  | cons f fs ih =>
    rw [List.length_cons, List.flatMap_cons, List.append_assoc, readMany, read_bytes, Option.bind_some, ih]
    rfl

/-! ## Nothing else is read -/

theorem flags_of_fields (b : UInt8) :
    flags (decide (128 ≤ b.toNat)) (Fin.ofNat 8 (b.toNat / 16)) (Fin.ofNat 16 b.toNat) = b := by
  have hb := b.toNat_lt
  apply UInt8.toNat_inj.mp
  rw [flags, UInt8.toNat_ofNat', Fin.val_ofNat, Fin.val_ofNat]
  by_cases hfin : 128 ≤ b.toNat
  · rw [decide_eq_true hfin, Bool.toNat_true]
    omega
  · rw [decide_eq_false hfin, Bool.toNat_false]
    omega

theorem eq_of_split? {n : Nat} {bs front rest : List UInt8} (h : split? n bs = some (front, rest)) :
    bs = front ++ rest ∧ front.length = n := by
  unfold split? at h
  split at h
  · next hle =>
    cases h
    exact ⟨(List.take_append_drop n bs).symm, List.length_take_of_le hle⟩
  · cases h

theorem eq_of_readWide {width least n : Nat} {bs rest : List UInt8} (h : readWide width least bs = some (n, rest)) :
    bs = beBytes width n ++ rest ∧ least ≤ n ∧ n < 256 ^ width := by
  obtain ⟨⟨front, back⟩, hsplit, hn⟩ := Option.bind_eq_some_iff.mp h
  obtain ⟨rfl, rfl⟩ := eq_of_split? hsplit
  split at hn
  · next hleast =>
    cases hn
    exact ⟨by rw [beBytes_beValue], hleast, beValue_lt front⟩
  · cases hn

theorem eq_of_readLength {masked : Bool} {n : Nat} {bs rest : List UInt8}
    (h : readLength bs = some ((masked, n), rest)) : bs = lengthBytes masked n ++ rest := by
  cases bs with
  | nil => cases h
  | cons b bs =>
    have hb := b.toNat_lt
    have hmark : ∀ m, b.toNat % 128 = m → UInt8.ofNat (128 * (decide (128 ≤ b.toNat)).toNat + m) = b := by
      intro m hm
      apply UInt8.toNat_inj.mp
      rw [UInt8.toNat_ofNat']
      by_cases hmasked : 128 ≤ b.toNat
      · rw [decide_eq_true hmasked, Bool.toNat_true]
        omega
      · rw [decide_eq_false hmasked, Bool.toNat_false]
        omega
    rw [readLength] at h
    by_cases hseven : b.toNat % 128 ≤ 125
    · rw [if_pos hseven] at h
      cases h
      rw [lengthBytes, if_pos hseven, hmark _ rfl]
      rfl
    · rw [if_neg hseven] at h
      obtain ⟨⟨n', rest'⟩, hwide, heq⟩ := Option.map_eq_some_iff.mp h
      cases heq
      by_cases htwo : b.toNat % 128 = 126
      · rw [if_pos htwo] at hwide
        obtain ⟨rfl, hleast, hlt⟩ := eq_of_readWide hwide
        rw [lengthBytes, if_neg (by omega), if_pos (by omega), hmark _ htwo]
        rfl
      · rw [if_neg htwo] at hwide
        obtain ⟨rfl, hleast, -⟩ := eq_of_readWide hwide
        rw [lengthBytes, if_neg (by omega), if_neg (by omega), hmark 127 (by omega)]
        rfl

theorem eq_of_readKey {masked : Bool} {key : Option MaskKey} {bs rest : List UInt8}
    (h : readKey masked bs = some (key, rest)) : bs = keyBytes key ++ rest ∧ masked = key.isSome := by
  unfold readKey at h
  cases masked with
  | false =>
    cases h
    exact ⟨rfl, rfl⟩
  | true =>
    rw [if_pos rfl] at h
    split at h
    · cases h
      exact ⟨(List.take_append_drop 4 bs).symm, rfl⟩
    · cases h

/-- **What is read is a frame**, in its one spelling. -/
theorem bytes_of_read {bs rest : List UInt8} {f : Frame} (h : read bs = some (f, rest)) :
    bs = f.bytes ++ rest := by
  cases bs with
  | nil => cases h
  | cons b bs =>
    obtain ⟨⟨⟨masked, n⟩, bs₁⟩, hlen, hbody⟩ := Option.bind_eq_some_iff.mp h
    obtain ⟨⟨key, bs₂⟩, hkey, hpayload⟩ := Option.bind_eq_some_iff.mp hbody
    dsimp only at hkey hpayload
    obtain rfl := eq_of_readLength hlen
    obtain ⟨rfl, rfl⟩ := eq_of_readKey hkey
    split at hpayload
    · next hfits =>
      cases hpayload
      rw [Frame.bytes, flags_of_fields, masking_masking, length_masking, List.length_take_of_le hfits.1,
        List.cons_append, List.append_assoc, List.append_assoc, List.take_append_drop]
    · cases hpayload

end FrameFormat
