import WingPhp.Simples.HttpSession

/-!
# The answers of the HTTP server as messages

An answer is read up to its first empty line, which ends the head, and the head in lines (`readResponse`).
Some of what stands in the head comes from the request: the value of its `Connection` header, and the key of
its cookie.  Neither makes the head end earlier, or gives it other lines.  What a script sets goes into it unseen:
`readResponse_onreceive` says that the answer is read as it was meant exactly if the script has set lines.
-/

namespace WingPhp.Http

open Ascii PhpText
open Crontab (date dateLetter)
open Decimal (digitText natDigits mem_digitText)

variable {μ ν π : Type}

/-- The lines of the head, and the content. -/
def readResponse (t : Text) : List Text × Text :=
  let head := (explode blankLine t).headD []
  (explode crlf head, t.drop (head.length + 4))

/-- **A head and what follows it are read apart.** -/
theorem readResponse_lines {lines : List Text} (hne : lines ≠ []) (h : ∀ l ∈ lines, IsLine l) (t : Text) :
    readResponse (joinLines lines ++ (blankLine ++ t)) = (lines, t) := by
  have hhead := read_head hne h t
  rw [readResponse, hhead, List.headD_cons, read_lines hne fun l hl => (h l hl).free, List.drop_append,
    List.drop_eq_nil_of_le (Nat.le_add_right _ _), Nat.add_sub_cancel_left]
  rfl

/-- Only lines are read back, where others follow them. -/
theorem isLine_of_readResponse {first t : Text} {set own : List Text} (hown : own ≠ [])
    (h : readResponse (joinLines (first :: (set ++ own)) ++ (blankLine ++ t)) = (first :: (set ++ own), t)) :
    ∀ l ∈ set, IsLine l := by
  have hmem : (explode blankLine (joinLines (first :: (set ++ own)) ++ (blankLine ++ t))).headD [] ∈
      explode blankLine (joinLines (first :: (set ++ own)) ++ (blankLine ++ t)) := by
    rw [explode_eq]
    exact List.mem_cons_self
  have hlines := congrArg Prod.fst h
  rw [readResponse] at hlines
  dsimp only at hlines
  -- the head is what was meant to be in it
  have hhead := intercalate_explode (List.cons_ne_nil 13 [10])
    ((explode blankLine (joinLines (first :: (set ++ own)) ++ (blankLine ++ t))).headD [])
  rw [← crlf, hlines] at hhead
  have hblank : ¬ blankLine <:+: joinLines (first :: (set ++ own)) := by
    rw [joinLines, hhead]
    exact not_infix_of_mem_explode (List.cons_ne_nil _ _) hmem
  intro l hl
  have hfree : ¬ crlf <:+: l := by
    have hl' : l ∈ first :: (set ++ own) := List.mem_cons_of_mem _ (List.mem_append_left _ hl)
    rw [← hlines] at hl'
    exact not_infix_of_mem_explode (List.cons_ne_nil _ _) hl'
  refine ⟨?_, hfree⟩
  rintro rfl
  obtain ⟨front, back, rfl⟩ := List.append_of_mem hl
  have hinfix := @isInfix_blankLine (first :: front) (back ++ own) (List.cons_ne_nil _ _) (by simp [hown])
  rw [List.cons_append] at hinfix
  rw [List.append_assoc, List.cons_append] at hblank
  exact hblank hinfix

/-! ## Texts without a line break -/

theorem not_crlf_append {s t : Text} (hs : ¬ crlf <:+: s) (ht : ¬ crlf <:+: t) (hlast : s.getLast? ≠ some 13) :
    ¬ crlf <:+: s ++ t := by
  rw [crlf, not_pair_infix_iff] at *
  refine List.isChain_append.mpr ⟨hs, ht, ?_⟩
  rintro a ha b - ⟨rfl, -⟩
  exact hlast ha

theorem not_crlf_of_not_mem {t : Text} (h : 13 ∉ t) : ¬ crlf <:+: t := fun hi => h (hi.subset List.mem_cons_self)

theorem toupper_ne {c : UInt8} (h : toupper c = 13) : c = 13 := by
  unfold toupper at h
  split_ifs at h with hc
  · have hlo := UInt8.le_iff_toNat_le.mp hc.1
    have hvalue := congrArg UInt8.toNat h
    rw [UInt8.toNat_sub_of_le _ _ (UInt8.le_trans (by decide) hc.1)] at hvalue
    simp only [UInt8.reduceToNat] at hlo hvalue
    omega
  · exact h

theorem not_crlf_ucfirst {t : Text} (h : ¬ crlf <:+: t) : ¬ crlf <:+: ucfirst t := by
  cases t with
  | nil => exact h
  | cons c t =>
    intro hi
    rcases List.infix_cons_iff.mp hi with hp | hi
    · obtain ⟨hc, hp'⟩ := List.cons_prefix_cons.mp hp
      obtain rfl := toupper_ne hc.symm
      exact h (List.infix_cons_iff.mpr (.inl (List.cons_prefix_cons.mpr ⟨rfl, hp'⟩)))
    · exact h (List.infix_cons_iff.mpr (.inr hi))

/-- A header as `setHeaders` writes it. -/
theorem isLine_header {name value : Text} (hname : ¬ crlf <:+: name) (hvalue : ¬ crlf <:+: value) :
    IsLine (ucfirst name ++ ascii ": " ++ ucfirst value) where
  ne_nil h := by
    have hcolon := (List.append_eq_nil_iff.mp (List.append_eq_nil_iff.mp h).1).2
    exact absurd hcolon (by decide)
  free := by
    have hcolon : ¬ crlf <:+: ascii ": " ++ ucfirst value :=
      not_crlf_append (by decide) (not_crlf_ucfirst hvalue) (by decide)
    rw [List.append_assoc]
    rw [crlf, not_pair_infix_iff] at *
    refine List.isChain_append.mpr ⟨not_pair_infix_iff.mp (not_crlf_ucfirst (not_pair_infix_iff.mpr hname)), hcolon, ?_⟩
    rintro a - b hb ⟨-, rfl⟩
    exact absurd hb (by simp [ascii])

/-! ## What a script may set -/

/-- No line breaks in it. -/
def HeaderArg.Clean : HeaderArg → Prop
  | .array items => ∀ item ∈ items, ¬ crlf <:+: item.1 ∧ ¬ crlf <:+: item.2
  | .text t => IsLine t

def HeaderArg.lines : HeaderArg → List Text
  | .array items => items.map fun item => ucfirst item.1 ++ ascii ": " ++ ucfirst item.2
  | .text t => [t]

theorem HeaderArg.Clean.isLine {a : HeaderArg} (h : a.Clean) : ∀ l ∈ a.lines, IsLine l := by
  cases a with
  | array items =>
    intro l hl
    obtain ⟨item, hitem, rfl⟩ := List.mem_map.mp hl
    exact isLine_header (h item hitem).1 (h item hitem).2
  | text t =>
    intro l hl
    obtain rfl := List.mem_singleton.mp hl
    exact h

structure Php.Clean (php : Php π) : Prop where
  wingVersion : ¬ crlf <:+: php.wingVersion
  mimeType : ∀ file, ¬ crlf <:+: php.mimeType file

theorem clean_sitePhp : sitePhp.Clean := ⟨by decide, fun _ => show ¬ crlf <:+: ascii "text/x-php" from by decide⟩

/-! ## What comes from the request -/

theorem not_crlf_headerLine {httpMsg l : Text} (h : l ∈ headerLines httpMsg) : ¬ crlf <:+: l :=
  not_infix_of_mem_explode (List.cons_ne_nil _ _) (List.mem_of_mem_tail h)

theorem isInfix_headerValue {header value : Text} (h : headerValue header = some value) : value <:+: header :=
  infix_of_mem_explode (List.mem_of_getElem? h)

theorem isInfix_getD_one (sep t : Text) : (explode sep t).getD 1 [] <:+: t := by
  rw [List.getD_eq_getElem?_getD]
  cases h : (explode sep t)[1]? with
  | none => exact List.nil_infix
  | some piece => exact infix_of_mem_explode (List.mem_of_getElem? h)

theorem isInfix_cookieKeyOf (cookieStr : Text) : cookieKeyOf cookieStr <:+: cookieStr := by
  rw [cookieKeyOf]
  split
  · next item hitem =>
    obtain ⟨piece, hpiece, rfl⟩ := List.mem_map.mp (List.mem_of_find?_eq_some hitem)
    exact (isInfix_getD_one _ _).trans ((isInfix_trim piece).trans (infix_of_mem_explode hpiece))
  · exact List.nil_infix

theorem isInfix_cookieKeyOfHeader {header key : Text} (h : cookieKeyOfHeader header = some key) : key <:+: header := by
  unfold cookieKeyOfHeader at h
  dsimp only at h
  split at h
  · split at h
    · obtain rfl := Option.some.inj h
      cases hvalue : headerValue header with
      | none => exact (isInfix_cookieKeyOf _).trans List.nil_infix
      | some value => exact (isInfix_cookieKeyOf _).trans (isInfix_headerValue hvalue)
    · cases h
  · cases h

theorem not_crlf_of_infix {s t : Text} (h : s <:+: t) (ht : ¬ crlf <:+: t) : ¬ crlf <:+: s := fun hs => ht (hs.trans h)

theorem not_crlf_cookieKey {httpMsg key : Text} (h : key ∈ cookieKeys httpMsg) : ¬ crlf <:+: key := by
  obtain ⟨header, hheader, hkey⟩ := List.mem_filterMap.mp h
  exact not_crlf_of_infix (isInfix_cookieKeyOfHeader hkey) (not_crlf_headerLine hheader)

/-- The key the session is kept under comes from the request, or is new. -/
theorem not_crlf_sessionKey {v : Visit μ ν π} (hunique : ¬ crlf <:+: v.unique) : ¬ crlf <:+: sessionKey v := by
  rw [sessionKey, List.getLastD_eq_getLast?]
  cases h : (cookieKeys v.httpMsg).getLast? with
  | none => exact hunique
  | some key => exact not_crlf_cookieKey (List.mem_of_getLast? h)

/-! ## New keys -/

def isKeyChar (c : UInt8) : Bool := isHex c || c = 95

theorem Draw.length_piece (d : Draw) : d.piece.length = 8 := by
  rw [piece, List.length_take, List.length_drop, d.length_md5]
  have := d.offset.isLt
  omega

theorem Draw.hex_piece (d : Draw) : ∀ c ∈ d.piece, isHex c = true := fun c hc =>
  d.hex_md5 c (List.mem_of_mem_drop (List.mem_of_mem_take hc))

/-- **The loop ends**, with 64 characters. -/
theorem length_uniqueFrom (draws : Nat → Draw) (fuel i : Nat) (randcode : Text) (hfuel : 64 - randcode.length ≤ fuel)
    (h8 : randcode.length % 8 = 0) (h64 : randcode.length ≤ 64) : (uniqueFrom draws fuel i randcode).length = 64 := by
  induction fuel generalizing i randcode with
  | zero =>
    rw [uniqueFrom]
    omega
  | succ fuel ih =>
    rw [uniqueFrom]
    split
    · have hlen : (randcode ++ (draws i).piece).length = randcode.length + 8 := by
        rw [List.length_append, Draw.length_piece]
      exact ih (i + 1) _ (by omega) (by omega) (by omega)
    · omega

theorem hex_uniqueFrom (draws : Nat → Draw) (fuel i : Nat) (randcode : Text) (h : ∀ c ∈ randcode, isHex c = true) :
    ∀ c ∈ uniqueFrom draws fuel i randcode, isHex c = true := by
  induction fuel generalizing i randcode with
  | zero => exact h
  | succ fuel ih =>
    rw [uniqueFrom]
    split
    · refine ih (i + 1) _ fun c hc => ?_
      rcases List.mem_append.mp hc with hc | hc
      · exact h c hc
      · exact (draws i).hex_piece c hc
    · exact h

theorem isKeyChar_unique (v : Visit μ ν π) : ∀ c ∈ v.unique, isKeyChar c = true := by
  intro c hc
  rcases List.mem_append.mp hc with hc | hc
  · rcases List.mem_append.mp hc with hc | hc
    · exact (Bool.or_eq_true _ _).mpr (.inl (hex_uniqueFrom _ _ _ _ (by simp) c hc))
    · obtain rfl : c = 95 := by simpa [ascii] using hc
      decide
  · obtain ⟨hlo, hhi⟩ := mem_digitText hc
    have hhex : isHex c = true := by
      have hlo' : 48 ≤ c := UInt8.le_iff_toNat_le.mpr hlo
      have hhi' : c ≤ 57 := UInt8.le_iff_toNat_le.mpr hhi
      simp [isHex, hlo', hhi']
    exact (Bool.or_eq_true _ _).mpr (.inl hhex)

theorem truthy_unique (v : Visit μ ν π) : truthy v.unique = true := by
  have hmem : 95 ∈ v.unique := List.mem_append_left _ (List.mem_append_right _ (by decide))
  have hnil : v.unique ≠ [] := List.ne_nil_of_mem hmem
  have hzero : v.unique ≠ ascii "0" := fun h => absurd hmem (by rw [h]; decide)
  simp [truthy, hnil, hzero]

/-- Characters a key has not. -/
theorem not_mem_unique {c : UInt8} (h : isKeyChar c = false) (v : Visit μ ν π) : c ∉ v.unique := fun hc => by
  rw [isKeyChar_unique v c hc] at h
  cases h

/-! ## The lines of an answer -/

theorem not_mem_date {c : UInt8} {format : Text} (hformat : c ∉ format) (hc : ¬ (48 ≤ c.toNat ∧ c.toNat ≤ 57))
    (t : Nat) :
    c ∉ date format t := by
  intro hmem
  obtain ⟨letter, hletter, hmem⟩ := List.mem_flatMap.mp hmem
  unfold dateLetter at hmem
  split_ifs at hmem <;> first
    | exact hc (mem_digitText hmem)
    | exact hformat (List.mem_singleton.mp hmem ▸ hletter)

theorem not_crlf_dateTime (t : Nat) : ¬ crlf <:+: dateTime t := by
  refine not_crlf_of_not_mem fun h => ?_
  rcases List.mem_append.mp h with h | h
  · rcases List.mem_append.mp h with h | h
    · exact not_mem_date (by decide) (by decide) t h
    · exact absurd (mem_digitText h).1 (by decide)
  · exact not_mem_date (by decide) (by decide) t h

namespace Server

variable {php : Php π} {config : Config} {port : Nat} {w : Windows μ} {s : Server ν π} {v : Visit μ ν π}

theorem isLine_setCookie {key : Text} (h : ¬ crlf <:+: key) : IsLine (setCookie key) where
  ne_nil h := absurd (List.append_eq_nil_iff.mp h).1 (by decide)
  free := not_crlf_append (by decide) (not_crlf_append (by decide) h (by decide)) (by decide)

/-- The connection is that of the last request, or of a header. -/
theorem not_crlf_connection (h : ∀ c ∈ s.connection, ¬ crlf <:+: c) {lines : List Text}
    (hlines : ∀ l ∈ lines, ¬ crlf <:+: l) :
    ∀ c ∈ (lines.foldl parseHeader s).connection, ¬ crlf <:+: c := by
  induction lines generalizing s with
  | nil => exact h
  | cons l lines ih =>
    refine ih (fun c hc => ?_) fun m hm => hlines m (List.mem_cons_of_mem _ hm)
    simp only [parseHeader, parseCookie, parseAccept, parseConnection] at hc
    split_ifs at hc
    · exact h c hc
    · exact h c hc
    · exact h c hc
    · exact not_crlf_of_infix (isInfix_headerValue hc) (hlines l List.mem_cons_self)
    · exact h c hc

theorem setHeaders_headers (s : Server ν π) (a : HeaderArg) : (s.setHeaders a).headers = s.headers ++ a.lines := by
  cases a <;> rfl

theorem produce_connection :
    (s.produce php config port w v).1.connection = (s.prepare php config port w v).connection := by
  simp only [produce, serve]
  split_ifs <;> first | rfl | (simp only [includeFile]; rw [foldl_setHeaders])

theorem not_crlf_produce_connection (h : ∀ c ∈ s.connection, ¬ crlf <:+: c) :
    ¬ crlf <:+: (s.produce php config port w v).1.connection.getD [] := by
  have hlines : ∀ l ∈ headerLines v.httpMsg, ¬ crlf <:+: l := fun l hl => not_crlf_headerLine hl
  have hfold : ∀ c ∈ ((headerLines v.httpMsg).foldl parseHeader (s.reset php)).connection, ¬ crlf <:+: c :=
    @not_crlf_connection _ _ (s.reset php) h _ hlines
  rw [produce_connection]
  change ¬ crlf <:+: ((headerLines v.httpMsg).foldl parseHeader (s.reset php)).connection.getD []
  cases hc : ((headerLines v.httpMsg).foldl parseHeader (s.reset php)).connection with
  | none => decide
  | some c => exact hfold c hc

/-- The headers of the server itself. -/
def ownLines (php : Php π) (v : Visit μ ν π) (connection mime content : Text) : List Text :=
  [ascii "Connection: " ++ ucfirst connection, ascii "Server: " ++ ucfirst (ascii "wing php " ++ php.wingVersion),
    ascii "Date: " ++ ucfirst (Http.dateTime v.dateTime), ascii "Content-Type: " ++ ucfirst (contentType mime),
    ascii "Content-Length: " ++ ucfirst (digitText (natDigits content.length))]

theorem ownHeaders_lines (s : Server ν π) (mime content : Text) :
    (s.ownHeaders php v mime content).lines = ownLines php v (s.connection.getD []) mime content := by
  have hnames : ucfirst (ascii "Connection") ++ ascii ": " = ascii "Connection: " ∧
      ucfirst (ascii "Server") ++ ascii ": " = ascii "Server: " ∧
      ucfirst (ascii "Date") ++ ascii ": " = ascii "Date: " ∧
      ucfirst (ascii "Content-Type") ++ ascii ": " = ascii "Content-Type: " ∧
      ucfirst (ascii "Content-Length") ++ ascii ": " = ascii "Content-Length: " := by decide
  obtain ⟨hconnection, hserver, hdate, htype, hlength⟩ := hnames
  simp only [ownHeaders, HeaderArg.lines, List.map_cons, List.map_nil, ownLines, hconnection, hserver, hdate, htype,
    hlength]

theorem not_crlf_contentType {mime : Text} (h : ¬ crlf <:+: mime) : ¬ crlf <:+: contentType mime := by
  unfold contentType
  dsimp only
  split_ifs <;> first | exact h | decide

theorem clean_ownHeaders (hphp : php.Clean) {file : Text} (content : Text) (h : ¬ crlf <:+: s.connection.getD []) :
    (s.ownHeaders php v (php.mimeType file) content).Clean := by
  intro item hitem
  have hdigits : ¬ crlf <:+: digitText (natDigits content.length) :=
    not_crlf_of_not_mem fun h13 => absurd (mem_digitText h13).1 (by decide)
  have hversion : ¬ crlf <:+: ascii "wing php " ++ php.wingVersion :=
    not_crlf_append (by decide) hphp.wingVersion (by decide)
  simp only [List.mem_cons, List.not_mem_nil, or_false] at hitem
  rcases hitem with rfl | rfl | rfl | rfl | rfl
  · exact ⟨show ¬ crlf <:+: ascii "Connection" from by decide, h⟩
  · exact ⟨show ¬ crlf <:+: ascii "Server" from by decide, hversion⟩
  · exact ⟨show ¬ crlf <:+: ascii "Date" from by decide, not_crlf_dateTime _⟩
  · exact ⟨show ¬ crlf <:+: ascii "Content-Type" from by decide, not_crlf_contentType (hphp.mimeType file)⟩
  · exact ⟨show ¬ crlf <:+: ascii "Content-Length" from by decide, hdigits⟩

/-- The lines behind the first of an answer. -/
def answerLines (php : Php π) (config : Config) (port : Nat) (w : Windows μ) (s : Server ν π) (v : Visit μ ν π) :
    List Text :=
  let p := s.produce php config port w v
  p.1.headers ++ ownLines php v (p.1.connection.getD []) (php.mimeType (requestPath php config w v)) p.2 ++
    if p.1.globals.session ≠ [] then [setCookie (sessionKey v)] else []

theorem onreceive_answer (s : Server ν π) (v : Visit μ ν π) : (s.onreceive php config port w v).2 =
    joinLines (ascii "HTTP/1.1 200 OK" :: s.answerLines php config port w v) ++
      (blankLine ++ (s.produce php config port w v).2) := by
  have hlines : s.answerLines php config port w v ≠ [] := by simp [answerLines, ownLines]
  have hstatus : ascii "HTTP/1.1 200 OK\r\n" = ascii "HTTP/1.1 200 OK" ++ crlf := by decide
  have hanswer := (@onreceive_eq _ _ _ php config port w s v).2.2
  rw [setHeaders_headers, ownHeaders_lines] at hanswer
  change _ = _ ++ (joinLines (s.answerLines php config port w v) ++ _) at hanswer
  rw [hanswer, hstatus, joinLines_cons hlines]
  simp only [List.append_assoc]

theorem isLine_answer (hphp : php.Clean) (hset : ∀ l ∈ (s.produce php config port w v).1.headers, IsLine l)
    (hs : ∀ c ∈ s.connection, ¬ crlf <:+: c) :
    ∀ l ∈ ascii "HTTP/1.1 200 OK" :: s.answerLines php config port w v, IsLine l := by
  have hunique : ¬ crlf <:+: v.unique := not_crlf_of_not_mem (not_mem_unique (by decide) v)
  intro l hl
  rcases List.mem_cons.mp hl with rfl | hl
  · exact ⟨by decide, by decide⟩
  rcases List.mem_append.mp hl with hl | hl
  · rcases List.mem_append.mp hl with hl | hl
    · exact hset l hl
    · rw [← ownHeaders_lines] at hl
      exact (clean_ownHeaders hphp _ (not_crlf_produce_connection hs)).isLine l hl
  · split at hl
    · obtain rfl := List.mem_singleton.mp hl
      exact isLine_setCookie (not_crlf_sessionKey hunique)
    · cases hl

/-- The answer of a server whose connection has no line break. -/
theorem readResponse_eq (hphp : php.Clean) (hset : ∀ l ∈ (s.produce php config port w v).1.headers, IsLine l)
    (hs : ∀ c ∈ s.connection, ¬ crlf <:+: c) :
    readResponse (s.onreceive php config port w v).2 =
      (ascii "HTTP/1.1 200 OK" :: s.answerLines php config port w v, (s.produce php config port w v).2) := by
  rw [onreceive_answer]
  exact readResponse_lines (List.cons_ne_nil _ _) (@isLine_answer _ _ _ php config port w s v hphp hset hs) _

/-- The connection between two requests. -/
theorem not_crlf_run_connection (visits : List (Visit μ ν π)) :
    ∀ c ∈ ((start php).run php config port w visits).connection, ¬ crlf <:+: c := by
  cases visits with
  | nil =>
    rintro c hc
    obtain rfl := Option.some.inj hc
    decide
  | cons first visits =>
    have hfirst : ((start php).onreceive php config port w first).1.connection = none := onreceive_connection _ _
    have hnone : (((start php).onreceive php config port w first).1.run php config port w visits).connection = none :=
      run_connection hfirst
    rw [run, hnone]
    simp

/-- **Only a script splits an answer.**  After any run, the head of an answer is read as the lines the file has set
and those of the server itself, and what follows it as the content, of the length told there, exactly if what the file
has set are lines. -/
theorem readResponse_onreceive (hphp : php.Clean) (visits : List (Visit μ ν π)) (v : Visit μ ν π) :
    let s := (start php).run php config port w visits
    readResponse (s.onreceive php config port w v).2 =
        (ascii "HTTP/1.1 200 OK" :: s.answerLines php config port w v, (s.produce php config port w v).2) ↔
      ∀ l ∈ (s.produce php config port w v).1.headers, IsLine l := by
  intro s
  refine ⟨fun h => ?_, fun hset => readResponse_eq hphp hset (not_crlf_run_connection visits)⟩
  rw [onreceive_answer, answerLines, List.append_assoc] at h
  exact isLine_of_readResponse (by simp [ownLines]) h

/-- A file that sends a browser to where it is told. -/
def redirectVisit (location : Text) : Visit Text Nat Text :=
  { siteVisit (ascii "GET / HTTP/1.1\r\n\r\n") with
    script := fun _ _ => ⟨[], [.array [(ascii "Location", location)]], []⟩ }

/-- The index of the site, asked for with a connection that tries to end the head; and a place with a line break. -/
theorem readResponse_onreceive_site :
    let v := siteVisit (ascii "GET / HTTP/1.1\r\nConnection: \n\r\n\r\n")
    let v' := redirectVisit (ascii "\r\n\r\ninjected")
    let s := start sitePhp
    readResponse (s.onreceive sitePhp siteConfig 9998 plainNames v).2 =
        (ascii "HTTP/1.1 200 OK" :: s.answerLines sitePhp siteConfig 9998 plainNames v, ascii "<html>") ∧
      readResponse (s.onreceive sitePhp siteConfig 9998 plainNames v').2 ≠
        (ascii "HTTP/1.1 200 OK" :: s.answerLines sitePhp siteConfig 9998 plainNames v',
          (s.produce sitePhp siteConfig 9998 plainNames v').2) :=
  ⟨(readResponse_onreceive clean_sitePhp [] _).mpr (by decide +kernel),
    fun h => absurd ((readResponse_onreceive clean_sitePhp [] _).mp h) (by decide +kernel)⟩

end Server

end WingPhp.Http
