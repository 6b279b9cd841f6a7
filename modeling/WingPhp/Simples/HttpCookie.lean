import WingPhp.Simples.HttpMessage

/-!
# The cookie of a session, there and back

The answer to a request that has left a session tells the key in its last header.  A browser that sends the
key back, among any other cookies and headers (`BrowserRequest`), finds the session again: the last one that
was left under the key, whatever others have sent in between (`session_of_cookie`).
-/

namespace WingPhp.Http

open Ascii PhpText

variable {μ ν π : Type}

/-! ## The cookies of a browser -/

/-- A cookie of any name, or a part of one. -/
structure IsCookie (cookie : Text) : Prop where
  semicolon : 59 ∉ cookie
  colon : ¬ [58, 32] <:+: cookie
  free : ¬ crlf <:+: cookie

instance decidableIsCookie (cookie : Text) : Decidable (IsCookie cookie) :=
  decidable_of_iff (59 ∉ cookie ∧ ¬ [58, 32] <:+: cookie ∧ ¬ crlf <:+: cookie)
    ⟨fun h => ⟨h.1, h.2.1, h.2.2⟩, fun h => ⟨h.semicolon, h.colon, h.free⟩⟩

/-- What a browser sends that has a key of the server. -/
structure BrowserRequest where
  requestLine : Text
  before : List Text
  /-- its other cookies -/
  front : List Text
  back : List Text
  after : List Text
  body : Text
  isLine_requestLine : IsLine requestLine
  isLine_header : ∀ h ∈ before ++ after, IsLine h
  header_ne : ∀ h ∈ before ++ after, headerKey h ≠ ascii "cookie"
  isCookie : ∀ c ∈ front ++ back, IsCookie c
  front_ne : ∀ c ∈ front, ¬ sessionName <+: trim c

namespace BrowserRequest

variable (r : BrowserRequest) (key : Text)

def cookies : List Text := r.front ++ (sessionName ++ key) :: r.back

def cookieStr : Text := (ascii "; ").intercalate (r.cookies key)

def cookieLine : Text := ascii "Cookie" ++ (ascii ": " ++ r.cookieStr key)

def lines : List Text := r.requestLine :: (r.before ++ r.cookieLine key :: r.after)

def text : Text := joinLines (r.lines key) ++ (blankLine ++ r.body)

end BrowserRequest

/-! ## Reading them -/

/-- The pieces between the `;` are the cookies, with a blank in front of all but the first. -/
theorem explode_cookies {lead c : Text} {cookies : List Text} (hlead : 59 ∉ lead)
    (h : ∀ d ∈ c :: cookies, IsCookie d) :
    explode (ascii ";") (lead ++ (ascii "; ").intercalate (c :: cookies)) = (lead ++ c) :: cookies.map (32 :: ·) := by
  induction cookies generalizing lead c with
  | nil =>
    have hpiece : 59 ∉ lead ++ c := by simp [hlead, (h c List.mem_cons_self).semicolon]
    rw [List.intercalate_singleton]
    exact explode_of_not_mem hpiece
  | cons d cookies ih =>
    have hpiece : 59 ∉ lead ++ c := by simp [hlead, (h c List.mem_cons_self).semicolon]
    have htext : lead ++ (ascii "; ").intercalate (c :: d :: cookies) =
        (lead ++ c) ++ (ascii ";" ++ (ascii " " ++ (ascii "; ").intercalate (d :: cookies))) := by
      rw [List.intercalate_cons_cons, List.append_assoc, List.append_assoc]
      rfl
    have hrest := @ih (ascii " ") d (by decide) fun e he => h e (List.mem_cons_of_mem _ he)
    rw [htext]
    refine (explode_append_of_not_mem hpiece _).trans ?_
    change _ :: explode (ascii ";") _ = _
    rw [hrest]
    rfl

theorem trim_cookies {cookies : List Text} (hne : cookies ≠ []) (h : ∀ c ∈ cookies, IsCookie c) :
    (explode (ascii ";") ((ascii "; ").intercalate cookies)).map trim = cookies.map trim := by
  obtain ⟨c, cookies, rfl⟩ := List.exists_cons_of_ne_nil hne
  have hexplode := @explode_cookies [] c cookies List.not_mem_nil h
  rw [List.nil_append, List.nil_append] at hexplode
  rw [hexplode, List.map_cons, List.map_cons, List.map_map]
  exact congrArg _ (List.map_congr_left fun d _ => trim_blank d)

/-- Two characters that do not follow each other in a cookie do not in the joined ones. -/
theorem not_pair_cookies {x y : UInt8} (hblank : x ≠ 32) (hsemicolon : x ≠ 59) (hnext : y ≠ 59) {cookies : List Text}
    (h : ∀ c ∈ cookies, ¬ [x, y] <:+: c) : ¬ [x, y] <:+: (ascii "; ").intercalate cookies := by
  rw [not_pair_infix_iff]
  induction cookies with
  | nil => exact List.isChain_nil
  | cons c cookies ih =>
    have hc := not_pair_infix_iff.mp (h c List.mem_cons_self)
    cases cookies with
    | nil => rwa [List.intercalate_singleton]
    | cons d cookies =>
      have hrest := ih fun e he => h e (List.mem_cons_of_mem _ he)
      have hsep : ascii "; " = [59, 32] := by decide
      rw [List.intercalate_cons_cons, List.append_assoc, hsep] at *
      refine List.isChain_append.mpr ⟨hc, ?_, ?_⟩
      · refine List.isChain_append.mpr ⟨by simp [Ne.symm hsemicolon], hrest, ?_⟩
        rintro a ha b - ⟨rfl, -⟩
        exact hblank (Option.some.inj ha).symm
      · rintro a - b hb ⟨-, rfl⟩
        exact hnext (Option.some.inj hb).symm

/-- A key that comes back as it was told: not empty or `0`, without `;`, `=`, a line break or a blank behind a colon,
and not with a blank at its end. -/
structure IsKey (key : Text) : Prop where
  truthy : truthy key = true
  isCookie : IsCookie key
  equals : 61 ∉ key
  last : ∀ c ∈ key.getLast?, isBlank c = false

theorem IsKey.ne_nil {key : Text} (h : IsKey key) : key ≠ [] := by
  rintro rfl
  exact absurd h.truthy (by decide)

/-- **The keys of the server are such.** -/
theorem isKey_unique (v : Visit μ ν π) : IsKey v.unique where
  truthy := truthy_unique v
  isCookie :=
    ⟨not_mem_unique (by decide) v, fun h => not_mem_unique (by decide) v (h.subset List.mem_cons_self),
      not_crlf_of_not_mem (not_mem_unique (by decide) v)⟩
  equals := not_mem_unique (by decide) v
  last c hc := by
    have hchar := isKeyChar_unique v c (List.mem_of_getLast? hc)
    refine Bool.eq_false_iff.mpr fun hblank => ?_
    have hmem : c ∈ ([32, 9, 10, 13, 0, 11] : Text) := List.contains_iff_mem.mp hblank
    simp only [List.mem_cons, List.not_mem_nil, or_false] at hmem
    rcases hmem with rfl | rfl | rfl | rfl | rfl | rfl <;> exact absurd hchar (by decide)

theorem isCookie_sessionName {key : Text} (h : IsKey key) : IsCookie (sessionName ++ key) where
  semicolon := by
    have hname : 59 ∉ sessionName := by decide
    simp [hname, h.isCookie.semicolon]
  colon := by
    refine not_pair_infix_iff.mpr (List.isChain_append.mpr ⟨not_pair_infix_iff.mp (by decide),
      not_pair_infix_iff.mp h.isCookie.colon, ?_⟩)
    rintro a ha b - ⟨rfl, -⟩
    exact absurd ha (by decide)
  free := not_crlf_append (by decide) h.isCookie.free (by decide)

theorem trim_sessionName {key : Text} (h : IsKey key) : trim (sessionName ++ key) = sessionName ++ key := by
  refine trim_of_trimmed ⟨fun c hc => ?_, fun c hc => h.last c ?_⟩
  · have hhead : sessionName.head? = some c := by rwa [List.head?_append_of_ne_nil _ (by decide)] at hc
    obtain rfl : 87 = c := Option.some.inj hhead
    decide
  · rwa [List.getLast?_append_of_ne_nil _ h.ne_nil] at hc

/-- **The key is found among the cookies.** -/
theorem cookieKeyOf_cookies {front back : List Text} {key : Text} (hcookie : ∀ c ∈ front ++ back, IsCookie c)
    (hfront : ∀ c ∈ front, ¬ sessionName <+: trim c) (hkey : IsKey key) :
    cookieKeyOf ((ascii "; ").intercalate (front ++ (sessionName ++ key) :: back)) = key := by
  have hall : ∀ c ∈ front ++ (sessionName ++ key) :: back, IsCookie c := by
    intro c hc
    rcases List.mem_append.mp hc with hc | hc
    · exact hcookie c (List.mem_append_left _ hc)
    rcases List.mem_cons.mp hc with rfl | hc
    · exact isCookie_sessionName hkey
    · exact hcookie c (List.mem_append_right _ hc)
  have hnone : (front.map trim).find? (sessionName.isPrefixOf ·) = none := by
    rw [List.find?_eq_none]
    intro c hc hp
    obtain ⟨d, hd, rfl⟩ := List.mem_map.mp hc
    exact hfront d hd (List.isPrefixOf_iff_prefix.mp hp)
  have hhere : sessionName.isPrefixOf (sessionName ++ key) = true :=
    List.isPrefixOf_iff_prefix.mpr (List.prefix_append _ _)
  have hname : sessionName ++ key = ascii "WINGPHPSESSID" ++ (ascii "=" ++ key) := by
    rw [← List.append_assoc]
    rfl
  have hsplit : explode (ascii "=") (ascii "WINGPHPSESSID" ++ (ascii "=" ++ key)) =
      [ascii "WINGPHPSESSID", key] :=
    (explode_append_of_not_mem (by decide) key).trans (congrArg _ (explode_of_not_mem hkey.equals))
  rw [cookieKeyOf, trim_cookies (by simp) hall, List.map_append, List.map_cons, trim_sessionName hkey,
    List.find?_append, hnone, Option.none_or, List.find?_cons_of_pos hhere]
  dsimp only
  rw [hname, hsplit]
  rfl

/-! ## Reading the request -/

namespace BrowserRequest

variable (r : BrowserRequest) {key : Text}

theorem isCookie_cookies (hkey : IsKey key) : ∀ c ∈ r.cookies key, IsCookie c := by
  intro c hc
  rcases List.mem_append.mp hc with hc | hc
  · exact r.isCookie c (List.mem_append_left _ hc)
  rcases List.mem_cons.mp hc with rfl | hc
  · exact isCookie_sessionName hkey
  · exact r.isCookie c (List.mem_append_right _ hc)

theorem not_colon_cookieStr (hkey : IsKey key) : ¬ ascii ": " <:+: r.cookieStr key :=
  not_pair_cookies (by decide) (by decide) (by decide) fun c hc => (r.isCookie_cookies hkey c hc).colon

theorem explode_cookieLine (hkey : IsKey key) :
    explode (ascii ": ") (r.cookieLine key) = [ascii "Cookie", r.cookieStr key] :=
  (explode_append_of_not_mem (by decide) _).trans (congrArg _ (explode_of_not_isInfix (r.not_colon_cookieStr hkey)))

theorem cookieKeyOfHeader_cookieLine (hkey : IsKey key) : cookieKeyOfHeader (r.cookieLine key) = some key := by
  have hname : headerKey (r.cookieLine key) = ascii "cookie" := by
    rw [headerKey, r.explode_cookieLine hkey]
    change strtolower (ascii "Cookie") = ascii "cookie"
    decide
  have hvalue : headerValue (r.cookieLine key) = some (r.cookieStr key) := by
    rw [headerValue, r.explode_cookieLine hkey]
    rfl
  have hfound : cookieKeyOf (r.cookieStr key) = key := cookieKeyOf_cookies r.isCookie r.front_ne hkey
  rw [cookieKeyOfHeader, if_pos hname, hvalue]
  dsimp only
  rw [Option.getD_some, hfound, if_pos hkey.truthy]

theorem isLine_cookieLine (hkey : IsKey key) : IsLine (r.cookieLine key) where
  ne_nil h := absurd (List.append_eq_nil_iff.mp h).1 (by decide)
  free := by
    have hcookies : ¬ crlf <:+: r.cookieStr key :=
      not_pair_cookies (by decide) (by decide) (by decide) fun c hc => (r.isCookie_cookies hkey c hc).free
    rw [cookieLine, ← List.append_assoc]
    exact not_crlf_append (by decide) hcookies (by decide)

theorem isLine_lines (hkey : IsKey key) : ∀ l ∈ r.lines key, IsLine l := by
  intro l hl
  rcases List.mem_cons.mp hl with rfl | hl
  · exact r.isLine_requestLine
  rcases List.mem_append.mp hl with hl | hl
  · exact r.isLine_header l (List.mem_append_left _ hl)
  rcases List.mem_cons.mp hl with rfl | hl
  · exact r.isLine_cookieLine hkey
  · exact r.isLine_header l (List.mem_append_right _ hl)

theorem headerLines_text (hkey : IsKey key) : headerLines (r.text key) = r.before ++ r.cookieLine key :: r.after := by
  have hlines := r.isLine_lines hkey
  have hne : r.lines key ≠ [] := List.cons_ne_nil _ _
  rw [headerLines, headLines, text, read_head hne hlines, List.headD_cons,
    read_lines hne fun l hl => (hlines l hl).free]
  rfl

/-- **The request brings the key, and no other.** -/
theorem cookieKeys_text (hkey : IsKey key) : cookieKeys (r.text key) = [key] := by
  have hnone : ∀ hs : List Text, (∀ h ∈ hs, headerKey h ≠ ascii "cookie") → hs.filterMap cookieKeyOfHeader = [] := by
    intro hs h
    rw [List.filterMap_eq_nil_iff]
    exact fun l hl => if_neg (h l hl)
  rw [cookieKeys, r.headerLines_text hkey, List.filterMap_append,
    List.filterMap_cons_some (r.cookieKeyOfHeader_cookieLine hkey),
    hnone _ fun h hh => r.header_ne h (List.mem_append_left _ hh),
    hnone _ fun h hh => r.header_ne h (List.mem_append_right _ hh)]
  rfl

end BrowserRequest

/-- With a cookie of another server of the machine. -/
def siteRequest : BrowserRequest where
  requestLine := ascii "GET /session.php HTTP/1.1"
  before := [ascii "Host: 127.0.0.1:9998"]
  front := [ascii "lang=zh cn"]
  back := []
  after := []
  body := []
  isLine_requestLine := ⟨by decide, by decide⟩
  isLine_header h hh := by
    obtain rfl := List.mem_singleton.mp hh
    exact ⟨by decide, by decide⟩
  header_ne := by decide +kernel
  isCookie := by decide +kernel
  front_ne := by decide +kernel

/-! ## There and back -/

/-- The key in the last header of an answer. -/
def announced (answer : Text) : Option Text :=
  (readResponse answer).1.getLast?.bind fun l =>
    if (Server.setCookie []).isPrefixOf l then some (l.drop (Server.setCookie []).length) else none

namespace Server

variable {php : Php π} {config : Config} {port : Nat} {w : Windows μ} {s : Server ν π} {v : Visit μ ν π}

/-- The sessions requests leave, with their keys. -/
def kept (php : Php π) (config : Config) (port : Nat) (w : Windows μ) :
    Server ν π → List (Visit μ ν π) → List (Text × Session ν)
  | _, [] => []
  | s, v :: visits =>
    ((s.left php config port w v).map (sessionKey v, ·)).toList ++
      kept php config port w (s.onreceive php config port w v).1 visits

theorem kept_eq {visits : List (Visit μ ν π)} (h : s.connection = none) :
    s.kept php config port w visits = (sessions php config port w).puts s.cookies visits := by
  induction visits generalizing s with
  | nil => rfl
  | cons v visits ih =>
    have hleft : s.left php config port w v = (sessions php config port w).put s.cookies v :=
      left_congr h fun _ _ => rfl
    rw [kept, ih (onreceive_connection s v), onreceive_cookies h, hleft, KeyedStore.puts]
    rfl

theorem foldl_session (lines : List Text) (s : Server ν π) : (lines.foldl parseHeader s).globals.session =
    (lines.filterMap cookieKeyOfHeader).foldl (fun session k => (s.cookies k).getD session) s.globals.session := by
  induction lines generalizing s with
  | nil => rfl
  | cons l lines ih =>
    rw [List.foldl_cons, ih, parseHeader_cookies, parseHeader_session]
    cases hl : cookieKeyOfHeader l with
    | none =>
      rw [List.filterMap_cons_none hl]
      rfl
    | some k =>
      rw [List.filterMap_cons_some hl]
      rfl

/-- The session a file finds that is run for a request with one key. -/
theorem prepare_session {key : Text} (h : cookieKeys v.httpMsg = [key]) :
    (s.prepare php config port w v).globals.session = (s.cookies key).getD [] := by
  have hfold := foldl_session (headerLines v.httpMsg) (s.reset php)
  rw [show (headerLines v.httpMsg).filterMap cookieKeyOfHeader = [key] from h] at hfold
  exact hfold

theorem announced_onreceive (hphp : php.Clean) (hset : ∀ l ∈ (s.produce php config port w v).1.headers, IsLine l)
    (hs : ∀ c ∈ s.connection, ¬ crlf <:+: c) :
    announced (s.onreceive php config port w v).2 = (s.left php config port w v).map fun _ => sessionKey v := by
  rw [announced, readResponse_eq hphp hset hs, left]
  dsimp only
  rw [answerLines]
  split_ifs with hsession
  · have hprefix : (setCookie []).isPrefixOf (setCookie (sessionKey v)) = true := by
      rw [List.isPrefixOf_iff_prefix]
      exact ⟨sessionKey v, by simp [setCookie]⟩
    have hdrop : (setCookie (sessionKey v)).drop (setCookie []).length = sessionKey v := by
      have happend : setCookie (sessionKey v) = setCookie [] ++ sessionKey v := by simp [setCookie]
      rw [happend, List.drop_left]
    rw [← List.cons_append, List.getLast?_concat, Option.bind_some, if_pos hprefix, hdrop, Option.map_some]
  · have hother : ∀ t, (setCookie []).isPrefixOf (ascii "Content-Length: " ++ t) = false := fun t => rfl
    simp only [ownLines, List.append_nil, List.getLast?_cons, List.getLast?_append, List.getLast?_nil,
      Option.getD_some, Option.getD_none, Option.some_or, Option.bind_some, hother, Option.map_none,
      Bool.false_eq_true, if_false]

theorem left_ne_nil {session : Session ν} (h : s.left php config port w v = some session) : session ≠ [] := by
  simp only [left] at h
  split_ifs at h with hsession
  exact Option.some.inj h ▸ hsession

theorem kept_append (before after : List (Visit μ ν π)) : s.kept php config port w (before ++ after) =
    s.kept php config port w before ++ (s.run php config port w before).kept php config port w after := by
  induction before generalizing s with
  | nil => rfl
  | cons v before ih => rw [List.cons_append, kept, ih, kept, run, List.append_assoc]

theorem kept_ne_nil {visits : List (Visit μ ν π)} {p : Text × Session ν} (h : p ∈ s.kept php config port w visits) :
    p.2 ≠ [] := by
  induction visits generalizing s with
  | nil => cases h
  | cons v visits ih =>
    rcases List.mem_append.mp h with h | h
    · obtain ⟨session, hleft, rfl⟩ := Option.map_eq_some_iff.mp (Option.mem_toList.mp h)
      exact left_ne_nil hleft
    · exact ih h

/-- **Under a key lies the last session that was left under it**, also when the first request has not been made. -/
theorem run_stored (s : Server ν π) (visits : List (Visit μ ν π)) (key : Text) :
    (s.run php config port w visits).cookies key =
      (((s.kept php config port w visits).filter (·.1 = key)).getLast?.map Prod.snd).or (s.cookies key) := by
  cases visits with
  | nil => rfl
  | cons v visits =>
    have hs : (s.onreceive php config port w v).1.connection = none := onreceive_connection s v
    rw [run, run_cookies hs, KeyedStore.stored_eq, ← kept_eq hs, kept, onreceive_cookies_apply, List.filter_append,
      List.getLast?_append]
    cases (((s.onreceive php config port w v).1.kept php config port w visits).filter (·.1 = key)).getLast? with
    | some p => rfl
    | none =>
      rw [Option.map_none, Option.none_or, Option.none_or]
      by_cases hk : key = sessionKey v
      · subst hk
        cases s.left php config port w v <;> simp
      · cases s.left php config port w v <;> simp [hk, Ne.symm hk]

/-- **Who sends back the cookie of an answer finds the session again.**  After any run the file that is run for a
request with a key finds the last session that was left under the key; and there is one if an answer of the run, read as
it was meant, has told the key. -/
theorem session_of_cookie (hphp : php.Clean) (visits : List (Visit μ ν π)) (r : BrowserRequest) {key : Text}
    (hkey : IsKey key) (v : Visit μ ν π) (hmsg : v.httpMsg = r.text key) :
    let s := (start php).run php config port w
    ((s visits).prepare php config port w v).globals.session =
        ((((start php).kept php config port w visits).filter (·.1 = key)).getLast?.map Prod.snd).getD [] ∧
      ∀ before v₁ after, visits = before ++ v₁ :: after →
        (∀ l ∈ ((s before).produce php config port w v₁).1.headers, IsLine l) →
        announced ((s before).onreceive php config port w v₁).2 = some key →
        ((s visits).prepare php config port w v).globals.session ≠ [] := by
  intro s
  have hkeys : cookieKeys v.httpMsg = [key] := by
    rw [hmsg]
    exact r.cookieKeys_text hkey
  have hnone : (start php : Server ν π).cookies key = none := rfl
  have hfound : ((s visits).prepare php config port w v).globals.session =
      ((((start php).kept php config port w visits).filter (·.1 = key)).getLast?.map Prod.snd).getD [] := by
    rw [prepare_session hkeys, run_stored, hnone, Option.or_none]
  refine ⟨hfound, fun before v₁ after hvisits hset htold => ?_⟩
  rw [announced_onreceive hphp hset (not_crlf_run_connection before)] at htold
  obtain ⟨session, hleft, hown⟩ := Option.map_eq_some_iff.mp htold
  -- it was left under the key then, so that there is a last one
  have hkept : (key, session) ∈ ((start php).kept php config port w visits).filter (·.1 = key) := by
    rw [hvisits, kept_append, kept, hleft, ← hown]
    simp
  rw [hfound, List.getLast?_eq_some_getLast (List.ne_nil_of_mem hkept), Option.map_some, Option.getD_some]
  exact kept_ne_nil (List.mem_of_mem_filter (List.getLast_mem (List.ne_nil_of_mem hkept)))

def indexVisit : Visit Text Nat Text := siteVisit (ascii "GET / HTTP/1.1\r\n\r\n")

theorem announced_site :
    announced ((start sitePhp).onreceive sitePhp siteConfig 9998 plainNames indexVisit).2 = some indexVisit.unique := by
  decide +kernel

/-- The session that `index.php` has left is there for `session.php`. -/
theorem session_of_cookie_site :
    (((start sitePhp).run sitePhp siteConfig 9998 plainNames [indexVisit]).prepare sitePhp siteConfig 9998 plainNames
      (siteVisit (siteRequest.text indexVisit.unique))).globals.session ≠ [] :=
  (@session_of_cookie _ _ _ sitePhp siteConfig 9998 plainNames clean_sitePhp [indexVisit] siteRequest _
    (isKey_unique indexVisit) (siteVisit (siteRequest.text indexVisit.unique)) rfl).2 [] indexVisit [] rfl
      (by decide +kernel) announced_site

end Server

end WingPhp.Http
