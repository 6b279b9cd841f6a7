import WingPhp.Lib.FrameFormat

/-!
# `WebSocket.php`

`WebSocket::encode` writes a message as one unmasked text frame, in the form its length asks for
(`encode_wellFormed`), so that a client finds every message of a connection (`encode_connection`).

`WebSocket::decode` looks at the length of a frame only to see where the key and the data stand; the
data goes to the end of what was received.  `decode_right_iff`: what is received behind the frame has to
be nothing.

Texts are bytes.  `null` is `none`; an offset that is not there reads as the empty string, which XORs
to nothing.
-/

namespace WingPhp.WebSocket

open FrameFormat StreamCipher

/-! ## PHP functions -/

def chr (n : Nat) : UInt8 := UInt8.ofNat n

/-- `substr( $s, $start, $length )`. -/
def substr (s : List UInt8) (start length : Nat) : List UInt8 := (s.drop start).take length

/-- `pack( "n", $n )`. -/
def packShort (n : Nat) : List UInt8 := beBytes 2 n

/-- `pack( "xxxxN", $n )`. -/
def packLong (n : Nat) : List UInt8 := [0, 0, 0, 0] ++ beBytes 4 n

/-! ## `WebSocket` -/

/-- `WebSocket::encode`. -/
def encode (buffer : List UInt8) : List UInt8 :=
  let len := buffer.length
  let firstByte : UInt8 := 0x81
  if len ≤ 125 then [firstByte] ++ [chr len] ++ buffer
  else if len ≤ 65535 then [firstByte] ++ [chr 126] ++ packShort len ++ buffer
  else [firstByte] ++ [chr 127] ++ packLong len ++ buffer

/-- The loop over `$data`, from `$index` on. -/
def unmask (masks : List UInt8) : Nat → List UInt8 → Option (List UInt8) → Option (List UInt8)
  | _, [], decoded => decoded
  | index, b :: data, decoded =>
    unmask masks (index + 1) data
      (some (decoded.getD [] ++ (masks[index % 4]?.map fun m => b ^^^ m).toList))

/-- `WebSocket::decode`. -/
def decode (buffer : List UInt8) : Option (List UInt8) :=
  let len := (buffer.getD 1 0).toNat % 128
  if len = 126 then unmask (substr buffer 4 4) 0 (buffer.drop 8) none
  else if len = 127 then unmask (substr buffer 10 4) 0 (buffer.drop 14) none
  else unmask (substr buffer 2 4) 0 (buffer.drop 6) none

/-! ## What is sent -/

/-- Four zeros make a long of eight bytes. -/
theorem packLong_eq {n : Nat} (h : n < 0x100000000) : packLong n = beBytes 8 n := by
  have hzero : n / 256 / 256 / 256 / 256 = 0 := by omega
  simp only [packLong, beBytes, hzero]
  rfl

theorem encode_eq {p : List UInt8} (hp : p.length < 0x100000000) :
    encode p = (textFrame none p (by omega)).bytes := by
  show _ = flags true 0 1 :: (lengthBytes false p.length ++ p)
  unfold encode lengthBytes
  by_cases hseven : p.length ≤ 125
  · simp only [if_pos hseven, Bool.toNat_false, Nat.mul_zero, Nat.zero_add]
    rfl
  · by_cases htwo : p.length ≤ 65535
    · simp only [if_neg hseven, if_pos htwo, packShort]
      rfl
    · simp only [if_neg hseven, if_neg htwo, packLong_eq hp]
      rfl

/-- **A message is one frame** of text, unmasked and final, in the shortest form: a reader of the format takes
it from the front of what it receives, and nothing else. -/
theorem encode_wellFormed {p : List UInt8} (hp : p.length < 0x100000000) (rest : List UInt8) :
    read (encode p ++ rest) = some (⟨true, 0, 1, none, p, by omega⟩, rest) := by
  rw [encode_eq hp, read_bytes]
  rfl

theorem encode_wellFormed_ok :
    read (encode [111, 107] ++ [0x81]) = some (⟨true, 0, 1, none, [111, 107], by decide⟩, [0x81]) :=
  encode_wellFormed (by decide) [0x81]

/-- What is sent on a connection is a row of frames. -/
theorem encode_frames (ps : List (List UInt8)) (hps : ∀ p ∈ ps, p.length < 0x100000000) :
    ∃ fs : List Frame, ps.flatMap encode = fs.flatMap Frame.bytes ∧ fs.map Frame.payload = ps ∧
      ∀ f ∈ fs, f.fin = true ∧ f.opcode = 1 ∧ f.key = none := by
  induction ps with
  | nil => exact ⟨[], rfl, rfl, List.forall_mem_nil _⟩
  | cons p ps ih =>
    obtain ⟨hp, hps⟩ := List.forall_mem_cons.mp hps
    obtain ⟨fs, hbytes, hpayloads, hfs⟩ := ih hps
    refine ⟨textFrame none p (by omega) :: fs, ?_, congrArg (p :: ·) hpayloads, ?_⟩
    · rw [List.flatMap_cons, encode_eq hp, hbytes, List.flatMap_cons]
    · exact List.forall_mem_cons.mpr ⟨⟨rfl, rfl, rfl⟩, hfs⟩

/-- **All messages of a connection** are read, and nothing is left. -/
theorem encode_connection (ps : List (List UInt8)) (hps : ∀ p ∈ ps, p.length < 0x100000000) :
    ∃ fs, readMany ps.length (ps.flatMap encode) = some (fs, []) ∧
      fs.map Frame.payload = ps ∧ ∀ f ∈ fs, f.fin = true ∧ f.opcode = 1 ∧ f.key = none := by
  obtain ⟨fs, hbytes, hpayloads, hfs⟩ := encode_frames ps hps
  refine ⟨fs, ?_, hpayloads, hfs⟩
  have hlen : ps.length = fs.length := by rw [← hpayloads, List.length_map]
  have hread := readMany_bytes fs []
  rw [List.append_nil] at hread
  rw [hlen, hbytes, hread]

/-! ## What is received -/

theorem unmask_eq (key : MaskKey) (data : List UInt8) (index : Nat) (decoded : Option (List UInt8)) :
    unmask key.bytes index data decoded =
      if data = [] then decoded else some (decoded.getD [] ++ maskFrom key.mask index data) := by
  induction data generalizing index decoded with
  | nil => rfl
  | cons b data ih =>
    have hlt : index % 4 < key.bytes.length := by
      rw [key.length_eq]
      omega
    have hchar : (key.bytes[index % 4]?.map fun m => b ^^^ m).toList = [key.mask index b] := by
      rw [MaskKey.mask, List.getD_eq_getElem?_getD, List.getElem?_eq_getElem hlt]
      rfl
    rw [unmask, ih, hchar, if_neg (List.cons_ne_nil b data), maskFrom_cons]
    by_cases hnil : data = []
    · rw [if_pos hnil, hnil]
      rfl
    · rw [if_neg hnil, Option.getD_some, List.append_assoc]
      rfl

/-- Where the key and the data stand behind a header. -/
theorem unmask_header {header : List UInt8} (key : MaskKey) (data : List UInt8) {n : Nat} (h : header.length = n) :
    unmask (substr (header ++ (key.bytes ++ data)) n 4) 0 ((header ++ (key.bytes ++ data)).drop (n + 4)) none =
      if data = [] then none else some (maskFrom key.mask 0 data) := by
  have hkey : substr (header ++ (key.bytes ++ data)) n 4 = key.bytes := by
    rw [substr, ← h, List.drop_left, ← key.length_eq, List.take_left]
  have hdata : (header ++ (key.bytes ++ data)).drop (n + 4) = data := by
    rw [← List.drop_drop, ← h, List.drop_left, ← key.length_eq, List.drop_left]
  rw [hkey, hdata, unmask_eq]
  rfl

/-- All that was received behind the key is unmasked. -/
theorem decode_masked (f : Frame) {key : MaskKey} (hkey : f.key = some key) (r : List UInt8) :
    decode (f.bytes ++ r) =
      if maskFrom key.mask 0 f.payload ++ r = [] then none
      else some (maskFrom key.mask 0 (maskFrom key.mask 0 f.payload ++ r)) := by
  have hbytes : f.bytes ++ r = flags f.fin f.rsv f.opcode ::
      (lengthBytes true f.payload.length ++ (key.bytes ++ (maskFrom key.mask 0 f.payload ++ r))) := by
    rw [Frame.bytes, hkey, List.cons_append, List.append_assoc, List.append_assoc]
    rfl
  have hmark : ∀ m, m < 128 → (UInt8.ofNat (128 * true.toNat + m)).toNat % 128 = m := by
    intro m hm
    rw [UInt8.toNat_ofNat']
    simp
    omega
  rw [hbytes, decode]
  unfold lengthBytes
  by_cases hseven : f.payload.length ≤ 125
  · rw [if_pos hseven]
    have hlen : ((flags f.fin f.rsv f.opcode :: ([UInt8.ofNat (128 * true.toNat + f.payload.length)] ++
        (key.bytes ++ (maskFrom key.mask 0 f.payload ++ r)))).getD 1 0).toNat % 128 = f.payload.length :=
      hmark _ (by omega)
    simp only [hlen]
    rw [if_neg (by omega), if_neg (by omega)]
    exact @unmask_header [_, _] key _ 2 rfl
  · by_cases htwo : f.payload.length ≤ 65535
    · rw [if_neg hseven, if_pos htwo]
      have hlen : ((flags f.fin f.rsv f.opcode :: (UInt8.ofNat (128 * true.toNat + 126) ::
          beBytes 2 f.payload.length ++ (key.bytes ++ (maskFrom key.mask 0 f.payload ++ r)))).getD 1 0).toNat % 128 =
          126 := hmark 126 (by decide)
      simp only [hlen, if_true]
      exact @unmask_header (_ :: _ :: beBytes 2 f.payload.length) key _ 4 rfl
    · rw [if_neg hseven, if_neg htwo]
      have hlen : ((flags f.fin f.rsv f.opcode :: (UInt8.ofNat (128 * true.toNat + 127) ::
          beBytes 8 f.payload.length ++ (key.bytes ++ (maskFrom key.mask 0 f.payload ++ r)))).getD 1 0).toNat % 128 =
          127 := hmark 127 (by decide)
      simp only [hlen]
      exact @unmask_header (_ :: _ :: beBytes 8 f.payload.length) key _ 10 rfl

/-- **A client's message is found** exactly when nothing else was received with it; the empty one is found as
`null`. -/
theorem decode_right_iff (key : MaskKey) {p : List UInt8} (hp : p.length < 0x100000000) (r : List UInt8) :
    ((decode ((textFrame (some key) p (by omega)).bytes ++ r)).getD [] = p ↔ r = []) ∧
    (decode ((textFrame (some key) p (by omega)).bytes ++ r) = some p ↔ p ≠ [] ∧ r = []) := by
  have hdecode := decode_masked (textFrame (some key) p (by omega)) rfl r
  have hall : maskFrom key.mask 0 (maskFrom key.mask 0 p ++ r) = p ++ maskFrom key.mask p.length r := by
    rw [maskFrom_append, maskFrom_maskFrom 0 key.involutive, length_maskFrom, Nat.zero_add]
  have htext : p ++ maskFrom key.mask p.length r = p ↔ r = [] := by
    rw [List.append_right_eq_self, ← List.length_eq_zero_iff, length_maskFrom, List.length_eq_zero_iff]
  have hempty : maskFrom key.mask 0 p ++ r = [] ↔ p = [] ∧ r = [] := by
    rw [List.append_eq_nil_iff, ← List.length_eq_zero_iff, length_maskFrom, List.length_eq_zero_iff]
  rw [hdecode]
  show ((if maskFrom key.mask 0 p ++ r = [] then none
      else some (maskFrom key.mask 0 (maskFrom key.mask 0 p ++ r))).getD [] = p ↔ r = []) ∧
    ((if maskFrom key.mask 0 p ++ r = [] then none
      else some (maskFrom key.mask 0 (maskFrom key.mask 0 p ++ r))) = some p ↔ p ≠ [] ∧ r = [])
  rw [hall]
  by_cases hnil : maskFrom key.mask 0 p ++ r = []
  · obtain ⟨rfl, rfl⟩ := hempty.mp hnil
    simp
  · rw [if_neg hnil, Option.getD_some, Option.some.injEq, htext]
    refine ⟨Iff.rfl, fun hr => ⟨fun hp' => hnil (hempty.mpr ⟨hp', hr⟩), hr⟩, fun h => h.2⟩

/-- The masked `ok`, alone in the buffer. -/
theorem decode_alone :
    decode ((textFrame (some ⟨[1, 2, 3, 4], rfl⟩) [111, 107] (by decide)).bytes ++ []) = some [111, 107] :=
  (decode_right_iff ⟨[1, 2, 3, 4], rfl⟩ (by decide) []).2.mpr ⟨by decide, rfl⟩

/-- Two messages `ok` received at once. -/
theorem decode_coalesced :
    ¬ ∀ (key : MaskKey) (p r : List UInt8) (hp : p.length < 0x100000000),
      (decode ((textFrame (some key) p (by omega)).bytes ++ r)).getD [] = p := by
  intro h
  have hboth := h ⟨[1, 2, 3, 4], rfl⟩ [111, 107]
    (textFrame (some ⟨[1, 2, 3, 4], rfl⟩) [111, 107] (by decide)).bytes (by decide)
  revert hboth
  decide

end WingPhp.WebSocket
