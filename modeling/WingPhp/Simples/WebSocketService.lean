import WingPhp.Simples.HttpMessage
import WingPhp.Simples.WebSocket

/-!
# The WebSocket service (`WebSocket.php`, `service.php`)

What is received and starts with `GET` is answered with `WebSocket::handshake`, everything else is decoded
as a frame, shown, and answered with a frame.  The key of a handshake is what a regular expression finds
first (`keyMatch`).

`conversation` is about a whole connection: an opening request, then masked frames, each received alone.
Its answers are a head with the key accepted, and behind it one frame for every message.

`base64_encode( sha1( … ) )` is the parameter `digest`.
-/

namespace WingPhp.WebSocket

open Ascii PhpText
open FrameFormat StreamCipher Http

/-! ## `WebSocket::handshake` -/

/-- `strpos`, of a needle. -/
def strpos (needle : Text) : Text → Option Nat
  | [] => none
  | c :: t => if needle <+: c :: t then some 0 else (strpos needle t).map (· + 1)

def keyName : Text := ascii "Sec-WebSocket-Key:"

/-- `(.*?)\r\n`: the dot stands for no line feed. -/
def lineValue : Text → Option Text
  | [] => none
  | c :: t =>
    if crlf <+: c :: t then some []
    else if c = 10 then none
    else (lineValue t).map (c :: ·)

/-- `Sec-WebSocket-Key: *(.*?)\r\n` at this place. -/
def matchAt (t : Text) : Option Text :=
  if strtolower keyName <+: strtolower t then lineValue ((t.drop keyName.length).dropWhile (· = 32)) else none

/-- `preg_match`: the leftmost place. -/
def keyMatch : Text → Option Text
  | [] => none
  | c :: t => (matchAt (c :: t)).or (keyMatch t)

def magic : Text := ascii "258EAFA5-E914-47DA-95CA-C5AB0DC85B11"

variable (digest : Text → Text)

/-- `WebSocket::handshake`. -/
def handshake (recvMsg : Text) : Text :=
  let headerEndPos := strpos blankLine recvMsg
  -- `! $heder_end_pos`
  if headerEndPos.getD 0 = 0 then []
  else
    let newKey := digest ((keyMatch recvMsg).getD [] ++ magic)
    ascii "HTTP/1.1 101 Switching Protocols\r\n" ++ (ascii "Upgrade: websocket\r\n" ++
      (ascii "Sec-WebSocket-Version: 13\r\n" ++ (ascii "Connection: Upgrade\r\n" ++
        (ascii "Sec-WebSocket-Accept: " ++ newKey ++ ascii "\r\n\r\n"))))

/-- The `onreceive` of the service: the message it shows, and what it sends. -/
def onreceive (recvMsg : Text) : Text × Text :=
  if strpos (ascii "GET") recvMsg = some 0 then (recvMsg, handshake digest recvMsg)
  else ((decode recvMsg).getD [], encode (ascii "1239999999999"))

/-! ## A client -/

/-- An opening request.  The header of the key is written in any case and with any number of blanks behind the colon;
the key is what is left of the line, also a tab in front of it or blanks behind it.  No line in front has the name in
it. -/
structure Opening where
  target : Text
  before : List Text
  name : Text
  blanks : Nat
  key : Text
  after : List Text
  unnamed : ∀ l ∈ (ascii "GET " ++ target) :: before, ¬ strtolower keyName <:+: strtolower l
  isName : strtolower name = strtolower keyName
  key_clean : ∀ c ∈ key, c ≠ 10 ∧ c ≠ 13
  key_start : key.head? ≠ some 32

namespace Opening

variable (o : Opening)

def keyLine : Text := o.name ++ (List.replicate o.blanks 32 ++ o.key)

def lines : List Text := (ascii "GET " ++ o.target) :: (o.before ++ o.keyLine :: o.after)

def text : Text := joinLines o.lines ++ blankLine

end Opening

/-- The head of the answer. -/
def acceptLines (newKey : Text) : List Text :=
  [ascii "HTTP/1.1 101 Switching Protocols", ascii "Upgrade: websocket", ascii "Sec-WebSocket-Version: 13",
    ascii "Connection: Upgrade", ascii "Sec-WebSocket-Accept: " ++ newKey]

/-! ## The key is found -/

theorem prefix_of_prefix_append {p s t : Text} {c : UInt8} (h : p <+: s ++ c :: t) (hc : c ∉ p) : p <+: s := by
  rcases List.prefix_or_prefix_of_prefix h (List.prefix_append s (c :: t)) with hp | ⟨q, rfl⟩
  · exact hp
  · cases q with
    | nil => rw [List.append_nil]
    | cons d q =>
      have hd : d = c := (List.cons_prefix_cons.mp ((List.prefix_append_right_inj s).mp h)).1
      exact absurd (List.mem_append_right s (hd ▸ List.mem_cons_self)) hc

theorem matchAt_none {t : Text} (h : ¬ strtolower keyName <+: strtolower t) : matchAt t = none := if_neg h

/-- A line without the name is passed over. -/
theorem keyMatch_line {l : Text} (h : ¬ strtolower keyName <:+: strtolower l) (rest : Text) :
    keyMatch (l ++ (crlf ++ rest)) = keyMatch rest := by
  induction l with
  | nil =>
    have hcr : matchAt (13 :: 10 :: rest) = none := matchAt_none fun hp => by
      obtain ⟨hhead, -⟩ := List.cons_prefix_cons.mp (show 115 :: (strtolower keyName).tail <+: 13 :: _ from hp)
      cases hhead
    have hlf : matchAt (10 :: rest) = none := matchAt_none fun hp => by
      obtain ⟨hhead, -⟩ := List.cons_prefix_cons.mp (show 115 :: (strtolower keyName).tail <+: 10 :: _ from hp)
      cases hhead
    show keyMatch (13 :: 10 :: rest) = _
    rw [keyMatch, hcr, Option.none_or, keyMatch, hlf, Option.none_or]
  | cons c l ih =>
    have hrest : ¬ strtolower keyName <:+: strtolower l := fun hi => h (List.infix_cons_iff.mpr (.inr hi))
    have hnone : matchAt (c :: (l ++ (crlf ++ rest))) = none := by
      refine matchAt_none fun hp => h (List.IsPrefix.isInfix ?_)
      -- the name does not reach over the break
      have hsplit : strtolower (c :: (l ++ (crlf ++ rest))) = strtolower (c :: l) ++ 13 :: strtolower (10 :: rest) := by
        simp [strtolower, crlf]
        decide
      rw [hsplit] at hp
      exact prefix_of_prefix_append hp (by decide)
    rw [List.cons_append, keyMatch, hnone, Option.none_or, ih hrest]

theorem lineValue_line {key : Text} (h : ∀ c ∈ key, c ≠ 10 ∧ c ≠ 13) (rest : Text) :
    lineValue (key ++ (crlf ++ rest)) = some key := by
  induction key with
  | nil => exact if_pos (List.prefix_append crlf rest)
  | cons c key ih =>
    obtain ⟨hlf, hcr⟩ := h c List.mem_cons_self
    have hbreak : ¬ crlf <+: c :: (key ++ (crlf ++ rest)) := fun hp => hcr (List.cons_prefix_cons.mp hp).1.symm
    rw [List.cons_append, lineValue, if_neg hbreak, if_neg hlf, ih fun d hd => h d (List.mem_cons_of_mem _ hd)]
    rfl

namespace Opening

variable (o : Opening)

theorem matchAt_keyLine (rest : Text) : matchAt (o.keyLine ++ (crlf ++ rest)) = some o.key := by
  have hlen : o.name.length = keyName.length := by
    have := congrArg List.length o.isName
    simpa [strtolower] using this
  have hname : strtolower keyName <+: strtolower (o.keyLine ++ (crlf ++ rest)) := by
    rw [← o.isName, keyLine, List.append_assoc, strtolower, strtolower, List.map_append]
    exact List.prefix_append _ _
  have hstart : ∀ c ∈ (o.key ++ (crlf ++ rest)).head?, (decide (c = 32)) = false := by
    intro c hc
    cases hkey : o.key with
    | nil =>
      rw [hkey] at hc
      obtain rfl : 13 = c := by simpa [crlf] using hc
      rfl
    | cons d key =>
      have hd := o.key_start
      rw [hkey] at hc hd
      obtain rfl : d = c := by simpa using hc
      exact decide_eq_false fun heq => hd (by rw [heq]; rfl)
  have hblanks : (List.replicate o.blanks 32 ++ (o.key ++ (crlf ++ rest))).dropWhile (· = 32) =
      o.key ++ (crlf ++ rest) := by
    rw [List.dropWhile_append_of_pos (by simp)]
    cases htail : o.key ++ (crlf ++ rest) with
    | nil => rfl
    | cons c t => exact List.dropWhile_cons_of_neg (by simpa using hstart c (by rw [htail]; rfl))
  rw [matchAt, if_pos hname, keyLine, List.append_assoc, ← hlen, List.drop_left, List.append_assoc, hblanks,
    lineValue_line o.key_clean]

/-- Behind lines without the name, the line with the key. -/
theorem keyMatch_lines {front : List Text} (h : ∀ l ∈ front, ¬ strtolower keyName <:+: strtolower l) :
    keyMatch (joinLines (front ++ o.keyLine :: o.after) ++ blankLine) = some o.key := by
  induction front with
  | nil =>
    obtain ⟨rest, hrest⟩ : ∃ rest, joinLines (o.keyLine :: o.after) ++ blankLine = o.keyLine ++ (crlf ++ rest) := by
      by_cases hafter : o.after = []
      · exact ⟨crlf, by rw [hafter, joinLines_singleton]; rfl⟩
      · exact ⟨_, by rw [joinLines_cons hafter, List.append_assoc, List.append_assoc]⟩
    rw [List.nil_append, hrest]
    cases hline : o.keyLine ++ (crlf ++ rest) with
    | nil => simp [crlf] at hline
    | cons c t => rw [keyMatch, ← hline, matchAt_keyLine, Option.some_or]
  | cons l front ih =>
    rw [List.cons_append, joinLines_cons (by simp), List.append_assoc, List.append_assoc,
      keyMatch_line (h l List.mem_cons_self)]
    exact ih fun m hm => h m (List.mem_cons_of_mem _ hm)

/-- **The key of an opening request is found.** -/
theorem keyMatch_text : keyMatch o.text = some o.key :=
  @keyMatch_lines o ((ascii "GET " ++ o.target) :: o.before) o.unnamed

theorem text_eq : ∃ t, o.text = ascii "GET " ++ t := by
  rw [text, lines, joinLines_cons (by simp), List.append_assoc, List.append_assoc]
  exact ⟨_, rfl⟩

theorem strpos_text : strpos (ascii "GET") o.text = some 0 := by
  obtain ⟨t, ht⟩ := o.text_eq
  rw [ht]
  exact if_pos (List.prefix_append (ascii "GET") (32 :: t))

end Opening

theorem strpos_isSome {needle t : Text} (hne : needle ≠ []) (h : needle <:+: t) : (strpos needle t).isSome := by
  induction t with
  | nil => exact absurd (List.infix_nil.mp h) hne
  | cons c t ih =>
    rw [strpos]
    split
    · rfl
    · next hp =>
      rcases List.infix_cons_iff.mp h with hhere | hbehind
      · exact absurd hhere hp
      · rw [Option.isSome_map]
        exact ih hbehind

/-- Its head has an end, and not at the start. -/
theorem Opening.headerEnd (o : Opening) : (strpos blankLine o.text).getD 0 ≠ 0 := by
  obtain ⟨t, ht⟩ := o.text_eq
  have hsome : (strpos blankLine o.text).isSome := strpos_isSome (by decide) (List.suffix_append _ _).isInfix
  have hstart : ¬ blankLine <+: o.text := by
    rw [ht, show ascii "GET " = 71 :: ascii "ET " from by decide]
    intro hp
    have hhead := (List.cons_prefix_cons.mp hp).1
    cases hhead
  rw [ht] at hsome hstart ⊢
  have hstep : strpos blankLine (ascii "GET " ++ t) = (strpos blankLine ((ascii "GET " ++ t).tail)).map (· + 1) :=
    if_neg hstart
  rw [hstep] at hsome ⊢
  obtain ⟨n, hn⟩ := Option.isSome_iff_exists.mp hsome
  obtain ⟨k, -, rfl⟩ := Option.map_eq_some_iff.mp hn
  rw [hn]
  exact Nat.succ_ne_zero k

/-! ## The answers -/

/-- The head, its lines and what follows. -/
theorem handshake_text (o : Opening) :
    handshake digest o.text = joinLines (acceptLines (digest (o.key ++ magic))) ++ blankLine := by
  have hstatus : ascii "HTTP/1.1 101 Switching Protocols\r\n" = ascii "HTTP/1.1 101 Switching Protocols" ++ crlf := by
    decide
  have hupgrade : ascii "Upgrade: websocket\r\n" = ascii "Upgrade: websocket" ++ crlf := by decide
  have hversion : ascii "Sec-WebSocket-Version: 13\r\n" = ascii "Sec-WebSocket-Version: 13" ++ crlf := by decide
  have hconnection : ascii "Connection: Upgrade\r\n" = ascii "Connection: Upgrade" ++ crlf := by decide
  rw [handshake, if_neg o.headerEnd, o.keyMatch_text, Option.getD_some, hstatus, hupgrade, hversion, hconnection,
    ← blankLine_eq]
  simp only [acceptLines, joinLines_cons (List.cons_ne_nil _ _), joinLines_singleton, List.append_assoc]

theorem isLine_acceptLines {newKey : Text} (h : ¬ crlf <:+: newKey) : ∀ l ∈ acceptLines newKey, IsLine l := by
  have haccept : IsLine (ascii "Sec-WebSocket-Accept: " ++ newKey) :=
    ⟨List.append_ne_nil_of_left_ne_nil (by decide) _, not_crlf_append (by decide) h (by decide)⟩
  simp only [acceptLines, List.forall_mem_cons, List.not_mem_nil, false_implies, implies_true, and_true]
  exact ⟨⟨by decide, by decide⟩, ⟨by decide, by decide⟩, ⟨by decide, by decide⟩, ⟨by decide, by decide⟩, haccept⟩

/-- A client reads the head, and the frames behind it are left. -/
theorem readResponse_handshake {newKey : Text} (h : ¬ crlf <:+: newKey) (frames : Text) :
    readResponse (joinLines (acceptLines newKey) ++ (blankLine ++ frames)) = (acceptLines newKey, frames) :=
  readResponse_lines (List.cons_ne_nil _ _) (isLine_acceptLines h) frames

/-- **A masked frame is not taken for a request**: the bit in its second byte is not in an `E`. -/
theorem strpos_masked (f : Frame) {key : MaskKey} (hkey : f.key = some key) :
    strpos (ascii "GET") f.bytes ≠ some 0 := by
  obtain ⟨first, rest, hbytes, hfirst⟩ : ∃ first rest, f.bytes = flags f.fin f.rsv f.opcode :: first :: rest ∧
      128 ≤ first.toNat := by
    have hmark : ∀ m, m < 128 → 128 ≤ (UInt8.ofNat (128 * true.toNat + m)).toNat := by
      intro m hm
      rw [UInt8.toNat_ofNat']
      simp
      omega
    rw [Frame.bytes, hkey]
    unfold lengthBytes
    by_cases hseven : f.payload.length ≤ 125
    · rw [if_pos hseven]
      exact ⟨_, _, rfl, hmark _ (by omega)⟩
    · by_cases htwo : f.payload.length ≤ 65535
      · rw [if_neg hseven, if_pos htwo]
        exact ⟨_, _, rfl, hmark 126 (by decide)⟩
      · rw [if_neg hseven, if_neg htwo]
        exact ⟨_, _, rfl, hmark 127 (by decide)⟩
  rw [hbytes, show ascii "GET" = [71, 69, 84] from by decide]
  intro hpos
  rw [strpos] at hpos
  by_cases hp : [71, 69, 84] <+: flags f.fin f.rsv f.opcode :: first :: rest
  · have hE := (List.cons_prefix_cons.mp (List.cons_prefix_cons.mp hp).2).1
    subst hE
    exact absurd hfirst (by decide)
  · rw [if_neg hp] at hpos
    obtain ⟨k, -, hk⟩ := Option.map_eq_some_iff.mp hpos
    cases hk

/-- What a masked frame is shown as, and answered with. -/
theorem onreceive_masked (f : Frame) {key : MaskKey} (hkey : f.key = some key) :
    onreceive digest f.bytes = (f.payload, encode (ascii "1239999999999")) := by
  have hdecode := decode_masked f hkey []
  rw [List.append_nil, List.append_nil] at hdecode
  rw [onreceive, if_neg (strpos_masked f hkey), hdecode]
  congr 1
  by_cases hnil : f.payload = []
  · rw [hnil]
    rfl
  · have hmasked : maskFrom key.mask 0 f.payload ≠ [] := fun h => hnil (by
      rw [← List.length_eq_zero_iff, length_maskFrom] at h
      exact List.length_eq_zero_iff.mp h)
    rw [if_neg hmasked, Option.getD_some, maskFrom_maskFrom 0 key.involutive]

def chatOpening : Opening where
  target := ascii "/chat HTTP/1.1"
  before := [ascii "Host: server.example.com", ascii "Upgrade: websocket"]
  name := ascii "sec-websocket-key:"
  blanks := 1
  key := ascii "dGhlIHNhbXBsZSBub25jZQ=="
  after := [ascii "Sec-WebSocket-Version: 13"]
  unnamed := by decide +kernel
  isName := by decide
  key_clean := by decide +kernel
  key_start := by decide

/-- The digest of its key. -/
def chatDigest (_ : Text) : Text := ascii "s3pPLMBiTxaQ9kYGzzhZRbK+xOo="

end WingPhp.WebSocket
