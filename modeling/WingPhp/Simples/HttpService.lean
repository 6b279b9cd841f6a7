import WingPhp.Lib.KeyedStore
import WingPhp.Simples.Http
import WingPhp.Simples.Lines
import WingPhp.Simples.PhpTime

/-!
# The requests of the HTTP server

`onreceive` of `simples/http/service/Http.php`, from the text of a request to that of the answer.  One object
answers all requests: it keeps the sessions under the keys of their cookies, resets the superglobals, calls
`parseCookie`, `parseAccept` and `parseConnection` for the headers of these names, runs the file the path
names (`onreceive` of `Simples.Http` says which), and sends the headers and what the file gave.

A file of PHP is what it does to `$_SESSION`, which headers it sets and what it prints.
-/

namespace WingPhp.Http

open Ascii PhpText
open Crontab (date padDigits minuteOf)
open Decimal (digitText natDigits)

variable {μ ν π : Type}

/-- `date("Y-m-d H:i:s")` -/
def dateTime (t : Nat) : Text :=
  date (ascii "Y-m-d H:") t ++ digitText (padDigits 2 (minuteOf t)) ++ date (ascii ":s") t

/-! ## What a request meets -/

inductive Value where
  | null
  | text (t : Text)
  | int (n : Nat)
  deriving DecidableEq, Repr

def Value.ofText : Option Text → Value
  | none => .null
  | some t => .text t

/-- `$_SESSION` -/
abbrev Session (ν : Type) := List (Text × ν)

/-- The superglobals; `$_COOKIE` stays empty. -/
structure Globals (ν π : Type) where
  server : List (Text × Value)
  get : π
  post : π
  request : π
  session : Session ν

/-- An assignment to a place of an array. -/
def assign (key : Text) (value : Value) : List (Text × Value) → List (Text × Value)
  | [] => [(key, value)]
  | e :: es => if e.1 = key then (key, value) :: es else e :: assign key value es

/-- `parse_url` -/
structure Url where
  path : Option Text
  query : Option Text

/-- The functions of PHP the server calls, and its own properties. -/
structure Php (π : Type) where
  parseUrl : Text → Url
  parseStr : Text → π
  arrayMerge : π → π → π
  noParams : π
  /-- `getMimitype` -/
  mimeType : Text → Text
  wingVersion : Text

/-- What `header` is given. -/
inductive HeaderArg where
  | array (items : List (Text × Text))
  | text (t : Text)

/-- What a file of PHP leaves. -/
structure Included (ν : Type) where
  session : Session ν
  headers : List HeaderArg
  output : Text

def isHex (c : UInt8) : Bool := (48 ≤ c && c ≤ 57) || (97 ≤ c && c ≤ 102)

/-- `md5` of four random characters, and where the part of it starts that is taken. -/
structure Draw where
  md5 : Text
  offset : Fin 25
  length_md5 : md5.length = 32
  hex_md5 : ∀ c ∈ md5, isHex c = true

/-- A request, with the files, the clock and the random numbers it meets. -/
structure Visit (μ ν π : Type) where
  httpMsg : Text
  disk : Place μ → Option Entry
  contents : Text → Text
  script : Text → Globals ν π → Included ν
  requestTime : Nat
  dateTime : Nat
  uniqueTime : Nat
  draws : Nat → Draw

/-! ## `createUnique` -/

def Draw.piece (d : Draw) : Text := (d.md5.drop d.offset).take 8

/-- The loop; every turn adds something, so that there are at most 64. -/
def uniqueFrom (draws : Nat → Draw) : Nat → Nat → Text → Text
  | 0, _, randcode => randcode
  | fuel + 1, i, randcode =>
    if randcode.length < 64 then uniqueFrom draws fuel (i + 1) (randcode ++ (draws i).piece) else randcode

def createUnique (draws : Nat → Draw) (time : Nat) : Text :=
  uniqueFrom draws 64 0 [] ++ ascii "_" ++ digitText (natDigits time)

def Visit.unique (v : Visit μ ν π) : Text := createUnique v.draws v.uniqueTime

/-! ## The object -/

/-- `NULL` as a connection is `none`. -/
structure Server (ν π : Type) where
  cookies : Text → Option (Session ν)
  connection : Option Text
  httpAccept : List Text
  headers : List Text
  cookieKey : Text
  globals : Globals ν π

def sessionName : Text := ascii "WINGPHPSESSID="

/-- The key in the value of a `Cookie` header, which may be empty. -/
def cookieKeyOf (cookieStr : Text) : Text :=
  match ((explode (ascii ";") cookieStr).map trim).find? (sessionName.isPrefixOf ·) with
  | some item => (explode (ascii "=") item).getD 1 []
  | none => []

namespace Server

variable (php : Php π) (config : Config) (port : Nat) (w : Windows μ)

def noGlobals : Globals ν π := ⟨[], php.noParams, php.noParams, php.noParams, []⟩

def start : Server ν π := ⟨fun _ => none, some (ascii "close"), [], [], [], noGlobals php⟩

def reset (s : Server ν π) : Server ν π := { s with headers := [], cookieKey := [], globals := noGlobals php }

def parseCookie (s : Server ν π) (cookieStr : Text) : Server ν π :=
  let key := cookieKeyOf cookieStr
  if truthy key then
    { s with
      cookieKey := key
      globals := { s.globals with session := (s.cookies key).getD s.globals.session } }
  else s

def parseAccept (s : Server ν π) (acceptStr : Text) : Server ν π :=
  { s with httpAccept := explode (ascii ",") acceptStr }

def parseConnection (s : Server ν π) (connectionStr : Option Text) : Server ν π :=
  { s with connection := connectionStr }

end Server

/-- The name of a header. -/
def headerKey (header : Text) : Text := strtolower ((explode (ascii ": ") header).headD [])

def headerValue (header : Text) : Option Text := (explode (ascii ": ") header)[1]?

/-- The name under which `$_SERVER` has it. -/
def serverKey (key : Text) : Text :=
  ascii "HTTP_" ++ strtoupper (key.map fun c => if c = 45 then 95 else c)

/-- The lines before the first empty one; the first of them says what is asked for. -/
def headLines (httpMsg : Text) : List Text := explode crlf ((explode blankLine httpMsg).headD [])

def headerLines (httpMsg : Text) : List Text := (headLines httpMsg).tail

def requestMode (httpMsg : Text) : List Text := explode (ascii " ") ((headLines httpMsg).headD [])

def contentStr (httpMsg : Text) : Option Text := (explode blankLine httpMsg)[1]?

namespace Server

variable (php : Php π) (config : Config) (port : Nat) (w : Windows μ)

/-- One turn of the loop over the headers. -/
def parseHeader (s : Server ν π) (header : Text) : Server ν π :=
  let key := headerKey header
  let value := headerValue header
  let s :=
    if key = ascii "cookie" then s.parseCookie (value.getD [])
    else if key = ascii "accept" then s.parseAccept (value.getD [])
    else if key = ascii "connection" then s.parseConnection value
    else s
  { s with globals := { s.globals with server := assign (serverKey key) (.ofText value) s.globals.server } }

/-- Behind the loop. -/
def fillGlobals (s : Server ν π) (v : Visit μ ν π) (file : Text) : Server ν π :=
  let mode := requestMode v.httpMsg
  let url := php.parseUrl (mode.getD 1 [])
  let server := assign (ascii "DOCUMENT_ROOT") (.text (replaceSlash config.documentRoot)) <|
    assign (ascii "SCRIPT_FILENAME") (.text file) <|
    assign (ascii "REQUEST_METHOD") (.text (strtoupper (mode.headD []))) <|
    assign (ascii "REQUEST_URI") (.ofText mode[1]?) <|
    assign (ascii "PHP_SELF") (.ofText url.path) <|
    assign (ascii "SCRIPT_NAME") (.ofText url.path) <|
    assign (ascii "SERVER_PROTOCOL") (.ofText mode[2]?) <|
    assign (ascii "REQUEST_TIME") (.int v.requestTime) <|
    assign (ascii "SERVER_PORT") (.int port) s.globals.server
  let get := url.query.elim s.globals.get php.parseStr
  let content := (contentStr v.httpMsg).getD []
  let post := if truthy content then php.parseStr content else s.globals.post
  { s with globals := { s.globals with server, get, post, request := php.arrayMerge get post } }

def setHeaders (s : Server ν π) : HeaderArg → Server ν π
  | .array items =>
    { s with headers := s.headers ++ items.map fun item => ucfirst item.1 ++ ascii ": " ++ ucfirst item.2 }
  | .text t => { s with headers := s.headers ++ [t] }

/-- `include`, while the output is kept. -/
def includeFile (s : Server ν π) (r : Included ν) : Server ν π :=
  { r.headers.foldl setHeaders s with globals := { s.globals with session := r.session } }

/-- The content, and what making it leaves.  A directory cannot be read or included; what is printed where
there is no file goes with the buffer. -/
def serve (s : Server ν π) (v : Visit μ ν π) (file : Text) : Server ν π × Text :=
  if !([ascii "text/x-php", ascii "text/html"].contains (php.mimeType file)) then
    if truthy file && fileExists w v.disk file then
      (s, if isFile w v.disk file then v.contents file else [])
    else (s, ascii "404 not fund")
  else
    if truthy file && fileExists w v.disk file then
      if isFile w v.disk file then
        let r := v.script file s.globals
        (s.includeFile r, r.output)
      else (s, [])
    else (s, [])

def contentType (mime : Text) : Text :=
  let mime := if mime = ascii "text/x-php" then ascii "text/html" else mime
  if mime = ascii "text/plain" then ascii "text/css" else mime

/-- The headers every answer has. -/
def ownHeaders (s : Server ν π) (v : Visit μ ν π) (mime content : Text) : HeaderArg :=
  .array [(ascii "Connection", s.connection.getD []), (ascii "Server", ascii "wing php " ++ php.wingVersion),
    (ascii "Date", Http.dateTime v.dateTime), (ascii "Content-Type", contentType mime),
    (ascii "Content-Length", digitText (natDigits content.length))]

/-- The session is kept if there is one. -/
def keepSession (s : Server ν π) (v : Visit μ ν π) : Server ν π :=
  if s.globals.session ≠ [] then
    let cookieKey := if truthy s.cookieKey then s.cookieKey else v.unique
    let s := s.setHeaders (.array [(ascii "Set-Cookie", sessionName ++ cookieKey)])
    { s with cookies := Function.update s.cookies cookieKey (some s.globals.session) }
  else s

def response (s : Server ν π) (content : Text) : Text :=
  ascii "HTTP/1.1 200 OK\r\n" ++ (joinLines s.headers ++ (blankLine ++ content))

/-- At the end all is unset that belongs to the request. -/
def unset (s : Server ν π) : Server ν π :=
  { s with headers := [], cookieKey := [], connection := none, globals := noGlobals php }

/-- The file a request is answered with. -/
def requestPath (v : Visit μ ν π) : Text :=
  getRealPath w v.disk config (requestFile (fun t => (php.parseUrl t).path) v.httpMsg)

/-- What the file is run on. -/
def prepare (s : Server ν π) (v : Visit μ ν π) : Server ν π :=
  ((headerLines v.httpMsg).foldl parseHeader (s.reset php)).fillGlobals php config port v (requestPath php config w v)

/-- The object once the file has been run, and the content. -/
def produce (s : Server ν π) (v : Visit μ ν π) : Server ν π × Text :=
  (s.prepare php config port w v).serve php w v (requestPath php config w v)

/-- `onreceive`, with the text that is sent. -/
def onreceive (s : Server ν π) (v : Visit μ ν π) : Server ν π × Text :=
  let (s, content) := s.produce php config port w v
  let s := s.setHeaders (s.ownHeaders php v (php.mimeType (requestPath php config w v)) content)
  let s := s.keepSession v
  (s.unset php, s.response content)

/-- One request after the other. -/
def run : Server ν π → List (Visit μ ν π) → Server ν π
  | s, [] => s
  | s, v :: visits => run (s.onreceive php config port w v).1 visits

/-- The requests with their answers. -/
def answers : Server ν π → List (Visit μ ν π) → List (Visit μ ν π × Text)
  | _, [] => []
  | s, v :: visits =>
    (v, (s.onreceive php config port w v).2) :: answers (s.onreceive php config port w v).1 visits

/-- **The file that is run or read is the one that is opened.** -/
theorem produce_opened (s : Server ν π) (v : Visit μ ν π) :
    let opened := Http.onreceive w v.disk config (fun t => (php.parseUrl t).path) php.mimeType v.httpMsg
    let prepared := s.prepare php config port w v
    (∀ file, opened = some (.included file) → s.produce php config port w v =
        (prepared.includeFile (v.script file prepared.globals), (v.script file prepared.globals).output)) ∧
      (∀ file, opened = some (.read file) → s.produce php config port w v = (prepared, v.contents file)) ∧
      (opened = none → (s.produce php config port w v).1 = prepared) := by
  intro opened prepared
  have hproduce : s.produce php config port w v = prepared.serve php w v (requestPath php config w v) := rfl
  have hopened : opened = Http.onreceive w v.disk config (fun t => (php.parseUrl t).path) php.mimeType v.httpMsg := rfl
  have hpath : getRealPath w v.disk config (requestFile (fun t => (php.parseUrl t).path) v.httpMsg) =
      requestPath php config w v := rfl
  have hmime : ∀ mime : Text, (!([ascii "text/x-php", ascii "text/html"].contains mime)) = true ↔
      mime ∉ [ascii "text/x-php", ascii "text/html"] := fun mime => by simp
  rw [Http.onreceive, hpath] at hopened
  rw [hproduce, serve, hopened]
  generalize requestPath php config w v = path
  dsimp only
  simp only [hmime]
  split_ifs <;> simp

end Server

/-! ## The site that comes with the server -/

/-- The functions of PHP on the texts of requests that have no parameters. -/
def sitePhp : Php Text where
  parseUrl t := ⟨some t, none⟩
  parseStr t := t
  arrayMerge s t := s ++ t
  noParams := []
  mimeType _ := ascii "text/x-php"
  wingVersion := ascii "1.0.8"

def siteConfig : Config := ⟨ascii "C:/http/www", none, ascii "index.html index.htm index.php"⟩

/-- `index.php` and `session.php`. -/
def siteDisk (p : Place Text) : Option Entry :=
  if p ∈ [⟨67, [ascii "http", ascii "www", ascii "index.php"]⟩, ⟨67, [ascii "http", ascii "www", ascii "session.php"]⟩]
  then some .file else none

/-- The first sets a place of the session and a header, the second prints the session. -/
def siteScript (file : Text) (globals : Globals Nat Text) : Included Nat :=
  if file = ascii "C:/http/www/index.php" then
    ⟨[(ascii "a", 1)], [.array [(ascii "Author", ascii "yuyi")]], ascii "<html>"⟩
  else ⟨globals.session, [], (globals.session.map Prod.fst).flatten⟩

/-- `md5("AAAA")` -/
def siteDraw : Draw := ⟨ascii "098890dde069e9abad63f19a0d9e1f32", 0, by decide, by decide +kernel⟩

def siteVisit (httpMsg : Text) : Visit Text Nat Text :=
  ⟨httpMsg, siteDisk, fun _ => [], siteScript, 0, 0, 0, fun _ => siteDraw⟩

end WingPhp.Http
