import WingPhp.Simples.HttpService

/-!
# The sessions of the HTTP server

The sessions of all clients lie in one array, in an object that answers every request.  A request uses the
keys of its own cookies (`cookieKeys`) and puts its session under the last of them, or under a new key.
Seen so, the server is a `KeyedStore` (`sessions`).

* `answers_of_others`: a request is answered as if those who use other keys had never sent any;
* `session_of_cookie` (in `HttpCookie`): who sends back the cookie of an answer gets the last session left under it.
-/

namespace WingPhp.Http

open Ascii PhpText
open Decimal (digitText natDigits mem_digitText)

variable {μ ν π : Type}

/-- The key a header brings. -/
def cookieKeyOfHeader (header : Text) : Option Text :=
  if headerKey header = ascii "cookie" then
    let key := cookieKeyOf ((headerValue header).getD [])
    if truthy key then some key else none
  else none

/-- The keys a request brings. -/
def cookieKeys (httpMsg : Text) : List Text := (headerLines httpMsg).filterMap cookieKeyOfHeader

/-- The key its session is kept under. -/
def sessionKey (v : Visit μ ν π) : Text := (cookieKeys v.httpMsg).getLastD v.unique

theorem truthy_cookieKeyOfHeader {header key : Text} (h : cookieKeyOfHeader header = some key) : truthy key = true := by
  unfold cookieKeyOfHeader at h
  dsimp only at h
  split at h
  · split at h
    · next ht =>
      obtain rfl := Option.some.inj h
      exact ht
    · cases h
  · cases h

namespace Server

variable {php : Php π} {config : Config} {port : Nat} {w : Windows μ}

/-! ## The loop over the headers -/

section
variable (s : Server ν π) (header : Text)

@[simp] theorem parseHeader_cookies : (s.parseHeader header).cookies = s.cookies := by
  simp only [parseHeader, parseCookie, parseAccept, parseConnection]
  split_ifs <;> rfl

theorem parseHeader_cookieKey : (s.parseHeader header).cookieKey = (cookieKeyOfHeader header).getD s.cookieKey := by
  simp only [parseHeader, parseCookie, parseAccept, parseConnection, cookieKeyOfHeader]
  split_ifs <;> rfl

theorem parseHeader_session : (s.parseHeader header).globals.session =
    ((cookieKeyOfHeader header).bind s.cookies).getD s.globals.session := by
  simp only [parseHeader, parseCookie, parseAccept, parseConnection, cookieKeyOfHeader]
  split_ifs <;> rfl

@[simp] theorem parseHeader_headers : (s.parseHeader header).headers = s.headers := by
  simp only [parseHeader, parseCookie, parseAccept, parseConnection]
  split_ifs <;> rfl

end

theorem foldl_cookies (lines : List Text) (s : Server ν π) : (lines.foldl parseHeader s).cookies = s.cookies := by
  induction lines generalizing s with
  | nil => rfl
  | cons l lines ih => rw [List.foldl_cons, ih, parseHeader_cookies]

theorem foldl_cookieKey (lines : List Text) (s : Server ν π) :
    (lines.foldl parseHeader s).cookieKey = (lines.filterMap cookieKeyOfHeader).getLastD s.cookieKey := by
  induction lines generalizing s with
  | nil => rfl
  | cons l lines ih =>
    rw [List.foldl_cons, ih, parseHeader_cookieKey]
    cases hl : cookieKeyOfHeader l with
    | none => rw [List.filterMap_cons_none hl, Option.getD_none]
    | some k => rw [List.filterMap_cons_some hl, Option.getD_some, List.getLastD_cons]

/-! ## Two servers that look the same to a request -/

/-- The same but for sessions under other keys, and what the last request left. -/
structure Alike (keys : List Text) (s s' : Server ν π) : Prop where
  globals : s.globals = s'.globals
  headers : s.headers = s'.headers
  cookieKey : s.cookieKey = s'.cookieKey
  connection : s.connection = s'.connection
  cookies : ∀ k ∈ keys, s.cookies k = s'.cookies k

variable {keys : List Text} {s s' : Server ν π} {v : Visit μ ν π}

theorem Alike.parseHeader (h : Alike keys s s') {header : Text} (hkey : ∀ k ∈ cookieKeyOfHeader header, k ∈ keys) :
    Alike keys (s.parseHeader header) (s'.parseHeader header) where
  globals := by
    have hsession : (s.parseHeader header).globals.session = (s'.parseHeader header).globals.session := by
      rw [parseHeader_session, parseHeader_session, h.globals]
      cases hk : cookieKeyOfHeader header with
      | none => rfl
      | some k => rw [Option.bind_some, Option.bind_some, h.cookies k (hkey k hk)]
    simp only [Server.parseHeader, parseCookie, parseAccept, parseConnection] at hsession ⊢
    split_ifs at hsession ⊢ <;> simp_all [h.globals]
  headers := by rw [parseHeader_headers, parseHeader_headers, h.headers]
  cookieKey := by rw [parseHeader_cookieKey, parseHeader_cookieKey, h.cookieKey]
  connection := by
    simp only [Server.parseHeader, parseCookie, parseAccept, parseConnection]
    split_ifs <;> first | rfl | exact h.connection
  cookies k hk := by rw [parseHeader_cookies, parseHeader_cookies, h.cookies k hk]

theorem Alike.foldl (h : Alike keys s s') {lines : List Text}
    (hkeys : ∀ k ∈ lines.filterMap cookieKeyOfHeader, k ∈ keys) :
    Alike keys (lines.foldl Server.parseHeader s) (lines.foldl Server.parseHeader s') := by
  induction lines generalizing s s' with
  | nil => exact h
  | cons l lines ih =>
    refine ih (h.parseHeader fun k hk => hkeys k ?_) fun k hk => hkeys k ?_
    · exact List.mem_filterMap.mpr ⟨l, List.mem_cons_self, hk⟩
    · obtain ⟨l', hl', hk⟩ := List.mem_filterMap.mp hk
      exact List.mem_filterMap.mpr ⟨l', List.mem_cons_of_mem _ hl', hk⟩

theorem Alike.prepare (hconn : s.connection = s'.connection)
    (hcookies : ∀ k ∈ cookieKeys v.httpMsg, s.cookies k = s'.cookies k) :
    Alike (cookieKeys v.httpMsg) (s.prepare php config port w v) (s'.prepare php config port w v) := by
  have hreset : Alike (cookieKeys v.httpMsg) (s.reset php) (s'.reset php) := ⟨rfl, rfl, rfl, hconn, hcookies⟩
  have hkeys : ∀ k ∈ (headerLines v.httpMsg).filterMap cookieKeyOfHeader, k ∈ cookieKeys v.httpMsg := fun k hk => hk
  obtain ⟨hg, hh, hc, hn, hk⟩ := hreset.foldl hkeys
  refine ⟨?_, hh, hc, hn, hk⟩
  simp only [Server.prepare, fillGlobals]
  rw [hg]

theorem setHeaders_eq (s : Server ν π) (a : HeaderArg) :
    s.setHeaders a = { s with headers := (s.setHeaders a).headers } := by
  cases a <;> rfl

theorem foldl_setHeaders (args : List HeaderArg) (s : Server ν π) :
    args.foldl setHeaders s = { s with headers := (args.foldl setHeaders s).headers } := by
  induction args generalizing s with
  | nil => rfl
  | cons a args ih =>
    rw [List.foldl_cons, ih, setHeaders_eq]

theorem setHeaders_headers_congr (a : HeaderArg) (h : s.headers = s'.headers) :
    (s.setHeaders a).headers = (s'.setHeaders a).headers := by
  cases a <;> simp only [setHeaders, h]

theorem foldl_headers_congr (args : List HeaderArg) (h : s.headers = s'.headers) :
    (args.foldl setHeaders s).headers = (args.foldl setHeaders s').headers := by
  induction args generalizing s s' with
  | nil => exact h
  | cons a args ih => exact ih (setHeaders_headers_congr a h)

theorem Alike.setHeaders (h : Alike keys s s') (a : HeaderArg) : Alike keys (s.setHeaders a) (s'.setHeaders a) := by
  rw [setHeaders_eq s, setHeaders_eq s']
  exact ⟨h.globals, setHeaders_headers_congr a h.headers, h.cookieKey, h.connection, h.cookies⟩

theorem Alike.includeFile (h : Alike keys s s') (r : Included ν) : Alike keys (s.includeFile r) (s'.includeFile r) := by
  rw [Server.includeFile, Server.includeFile, foldl_setHeaders _ s, foldl_setHeaders _ s']
  exact ⟨by rw [h.globals], foldl_headers_congr _ h.headers, h.cookieKey, h.connection, h.cookies⟩

theorem Alike.serve (h : Alike keys s s') (file : Text) :
    Alike keys (s.serve php w v file).1 (s'.serve php w v file).1 ∧
      (s.serve php w v file).2 = (s'.serve php w v file).2 := by
  simp only [Server.serve, h.globals]
  split_ifs
  · exact ⟨h, rfl⟩
  · exact ⟨h, rfl⟩
  · exact ⟨h, rfl⟩
  -- only where a file is run is the object another one
  · exact ⟨h.includeFile _, rfl⟩
  all_goals exact ⟨h, rfl⟩

theorem Alike.produce (hconn : s.connection = s'.connection)
    (hcookies : ∀ k ∈ cookieKeys v.httpMsg, s.cookies k = s'.cookies k) :
    Alike (cookieKeys v.httpMsg) (s.produce php config port w v).1 (s'.produce php config port w v).1 ∧
      (s.produce php config port w v).2 = (s'.produce php config port w v).2 :=
  (Alike.prepare hconn hcookies).serve _

/-! ## What a request leaves -/

@[simp] theorem serve_cookies (s : Server ν π) (file : Text) : (s.serve php w v file).1.cookies = s.cookies := by
  simp only [serve]
  split_ifs <;> first | rfl | (simp only [includeFile]; rw [foldl_setHeaders])

@[simp] theorem serve_cookieKey (s : Server ν π) (file : Text) : (s.serve php w v file).1.cookieKey = s.cookieKey := by
  simp only [serve]
  split_ifs <;> first | rfl | (simp only [includeFile]; rw [foldl_setHeaders])

theorem produce_cookies : (s.produce php config port w v).1.cookies = s.cookies := by
  rw [produce, serve_cookies]
  exact foldl_cookies _ _

theorem produce_cookieKey : (s.produce php config port w v).1.cookieKey = (cookieKeys v.httpMsg).getLastD [] := by
  rw [produce, serve_cookieKey]
  exact foldl_cookieKey _ _

/-- The key that is used is the last one of the request, or a new one. -/
theorem key_eq (v : Visit μ ν π) :
    (if truthy ((cookieKeys v.httpMsg).getLastD []) then (cookieKeys v.httpMsg).getLastD [] else v.unique) =
      sessionKey v := by
  rw [sessionKey]
  cases hkeys : cookieKeys v.httpMsg with
  | nil => rfl
  | cons k keys =>
    have hmem : (k :: keys).getLastD [] ∈ cookieKeys v.httpMsg := by
      rw [hkeys, List.getLastD_eq_getLast?, List.getLast?_eq_some_getLast (List.cons_ne_nil _ _)]
      exact List.getLast_mem _
    obtain ⟨header, -, hheader⟩ := List.mem_filterMap.mp hmem
    rw [if_pos (truthy_cookieKeyOfHeader hheader), List.getLastD_cons, List.getLastD_cons]

/-- The session the file leaves, if it is kept. -/
def left (php : Php π) (config : Config) (port : Nat) (w : Windows μ) (s : Server ν π) (v : Visit μ ν π) :
    Option (Session ν) :=
  let session := (s.produce php config port w v).1.globals.session
  if session ≠ [] then some session else none

/-- The header that tells the key. -/
def setCookie (key : Text) : Text := ascii "Set-Cookie: " ++ (sessionName ++ key)

theorem keepSession_eq (hkey : (if truthy s.cookieKey then s.cookieKey else v.unique) = sessionKey v) :
    s.keepSession v =
      if s.globals.session ≠ [] then
        { s with
          headers := s.headers ++ [setCookie (sessionKey v)]
          cookies := Function.update s.cookies (sessionKey v) (some s.globals.session) }
      else s := by
  have hline : ucfirst (ascii "Set-Cookie") ++ ascii ": " = ascii "Set-Cookie: " := by decide
  rw [keepSession]
  dsimp only
  rw [hkey, setHeaders, List.map_singleton, hline]
  rfl

theorem ownHeaders_connection (h : s.connection = s'.connection) (mime content : Text) :
    s.ownHeaders php v mime content = s'.ownHeaders php v mime content := by
  rw [ownHeaders, ownHeaders, h]

/-- **What a request does to the sessions and what it is answered.** -/
theorem onreceive_eq (s : Server ν π) (v : Visit μ ν π) :
    let p := s.produce php config port w v
    let own := p.1.setHeaders (p.1.ownHeaders php v (php.mimeType (requestPath php config w v)) p.2)
    let kept := if p.1.globals.session ≠ [] then [setCookie (sessionKey v)] else []
    (s.onreceive php config port w v).1.cookies =
        (if p.1.globals.session ≠ [] then Function.update s.cookies (sessionKey v) (some p.1.globals.session)
          else s.cookies) ∧
      (s.onreceive php config port w v).1.connection = none ∧
      (s.onreceive php config port w v).2 =
        ascii "HTTP/1.1 200 OK\r\n" ++ (joinLines (own.headers ++ kept) ++ (blankLine ++ p.2)) := by
  intro p own kept
  have hkey : (if truthy own.cookieKey then own.cookieKey else v.unique) = sessionKey v := by
    rw [← key_eq v, show own.cookieKey = p.1.cookieKey from by rw [show own = _ from setHeaders_eq _ _],
      produce_cookieKey]
  have hkeep := keepSession_eq hkey
  have hown : own.cookies = s.cookies := by
    rw [show own = _ from setHeaders_eq _ _]
    exact produce_cookies
  have hsession : own.globals = p.1.globals := by rw [show own = _ from setHeaders_eq _ _]
  rw [hsession, hown] at hkeep
  change (own.keepSession v).cookies = _ ∧ none = none ∧ (own.keepSession v).response p.2 = _
  rw [hkeep, response]
  by_cases hempty : p.1.globals.session ≠ []
  · rw [if_pos hempty, if_pos hempty, show kept = _ from if_pos hempty]
    exact ⟨rfl, rfl, rfl⟩
  · rw [if_neg hempty, if_neg hempty, show kept = _ from if_neg hempty, List.append_nil]
    exact ⟨hown, rfl, rfl⟩

/-! ## The server as a store -/

/-- A server that has answered a request. -/
def idle (php : Php π) (cookies : Text → Option (Session ν)) : Server ν π :=
  ⟨cookies, none, [], [], [], noGlobals php⟩

theorem left_congr (hconn : s.connection = s'.connection)
    (hcookies : ∀ k ∈ cookieKeys v.httpMsg, s.cookies k = s'.cookies k) :
    s.left php config port w v = s'.left php config port w v := by
  rw [left, left, (Alike.produce hconn hcookies).1.globals]

theorem answer_congr (hconn : s.connection = s'.connection)
    (hcookies : ∀ k ∈ cookieKeys v.httpMsg, s.cookies k = s'.cookies k) :
    (s.onreceive php config port w v).2 = (s'.onreceive php config port w v).2 := by
  obtain ⟨halike, hcontent⟩ := @Alike.produce _ _ _ php config port w _ _ _ hconn hcookies
  rw [(onreceive_eq s v).2.2, (onreceive_eq s' v).2.2, hcontent, halike.globals,
    ownHeaders_connection halike.connection, setHeaders_headers_congr _ halike.headers]

/-- **The sessions.** -/
def sessions (php : Php π) (config : Config) (port : Nat) (w : Windows μ) :
    KeyedStore Text (Session ν) (Visit μ ν π) Text where
  sees v := cookieKeys v.httpMsg
  owner := sessionKey
  put cookies v := (idle php cookies).left php config port w v
  answer cookies v := ((idle php cookies).onreceive php config port w v).2
  put_congr h := left_congr rfl h
  answer_congr h := answer_congr rfl h

variable {visits : List (Visit μ ν π)}

/-- What lies under a key behind a request. -/
theorem onreceive_cookies_apply (s : Server ν π) (v : Visit μ ν π) (k : Text) :
    (s.onreceive php config port w v).1.cookies k =
      if k = sessionKey v then (s.left php config port w v).or (s.cookies k) else s.cookies k := by
  rw [(onreceive_eq s v).1, left]
  split_ifs with hsession hk
  · subst hk
    exact Function.update_self _ _ _
  · exact Function.update_of_ne hk _ _
  · rfl
  · rfl

theorem onreceive_cookies (h : s.connection = none) (v : Visit μ ν π) :
    (s.onreceive php config port w v).1.cookies = (sessions php config port w).next s.cookies v := by
  have hleft : (idle php s.cookies).left php config port w v = s.left php config port w v :=
    left_congr h.symm fun _ _ => rfl
  funext k
  rw [onreceive_cookies_apply, ← hleft]
  rfl

theorem onreceive_connection (s : Server ν π) (v : Visit μ ν π) :
    (s.onreceive php config port w v).1.connection = none :=
  (onreceive_eq s v).2.1

/-- **The server is that store.** -/
theorem run_cookies (h : s.connection = none) :
    (s.run php config port w visits).cookies = (sessions php config port w).run s.cookies visits := by
  induction visits generalizing s with
  | nil => rfl
  | cons v visits ih => rw [run, ih (onreceive_connection s v), onreceive_cookies h, KeyedStore.run]

theorem run_connection (h : s.connection = none) : (s.run php config port w visits).connection = none := by
  induction visits generalizing s with
  | nil => exact h
  | cons v visits ih => exact ih (onreceive_connection s v)

theorem answers_eq (h : s.connection = none) :
    s.answers php config port w visits = (sessions php config port w).answers s.cookies visits := by
  induction visits generalizing s with
  | nil => rfl
  | cons v visits ih =>
    have hanswer : (s.onreceive php config port w v).2 = (sessions php config port w).answer s.cookies v :=
      answer_congr h fun _ _ => rfl
    rw [answers, ih (onreceive_connection s v), onreceive_cookies h, hanswer, KeyedStore.answers]

/-! ## Requests of others -/

/-- **A request is answered as if those who use other keys had not been there**, once there has been a first
request: that one has another `Connection` header. -/
theorem answers_of_others (s₀ : Server ν π) (first : Visit μ ν π) (K : Text → Prop) [DecidablePred K]
    (hkeep : ∀ v ∈ visits, K (sessionKey v) → ∀ k ∈ cookieKeys v.httpMsg, K k) :
    let s := (s₀.onreceive php config port w first).1
    (s.answers php config port w visits).filter (fun p => K (sessionKey p.1)) =
      s.answers php config port w (visits.filter fun v => K (sessionKey v)) := by
  intro s
  have hs : s.connection = none := onreceive_connection s₀ first
  rw [answers_eq hs, answers_eq hs]
  exact KeyedStore.answers_purge (S := sessions php config port w) (K := K) (fun _ _ => rfl) hkeep

/-- Two clients, each of which takes a key of its own choice. -/
theorem answers_of_others_site :
    let first := siteVisit (ascii "GET / HTTP/1.1\r\n\r\n")
    let visit₁ := siteVisit (ascii "GET / HTTP/1.1\r\nCookie: WINGPHPSESSID=x\r\n\r\n")
    let visit₂ := siteVisit (ascii "GET /session.php HTTP/1.1\r\nCookie: WINGPHPSESSID=y\r\n\r\n")
    let s := ((start sitePhp).onreceive sitePhp siteConfig 9998 plainNames first).1
    (s.answers sitePhp siteConfig 9998 plainNames [visit₁, visit₂]).filter (fun p => sessionKey p.1 = ascii "y") =
      s.answers sitePhp siteConfig 9998 plainNames ([visit₁, visit₂].filter fun v => sessionKey v = ascii "y") :=
  answers_of_others (start sitePhp) _ (fun k => k = ascii "y") (by decide +kernel)

end Server

end WingPhp.Http
