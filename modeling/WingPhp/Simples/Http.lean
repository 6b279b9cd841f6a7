import WingPhp.Lib.PathWalk
import WingPhp.Simples.PhpText

/-!
# The files of the HTTP server

`simples/http/service/Http.php` answers a request with a file.  `getRealPath` puts the path of the request
behind the document root and asks whether there is such a file; for the path `/` it looks through the
index, and where there is a page for 404 that is the answer to a path it does not find.

`Windows.locate` is the place that the name of a file leads to.  A `..` leads to the directory above, and
no test in the source looks for one: `onreceive_right_iff` says which paths stay in the document root.
-/

namespace WingPhp.Http

open PathWalk Ascii PhpText

/-! ## File names -/

structure Place (ν : Type) where
  drive : UInt8
  names : List ν
  deriving DecidableEq, Repr

variable {ν : Type}

def Place.Inside (p dir : Place ν) : Prop := p.drive = dir.drive ∧ dir.names <+: p.names

instance [DecidableEq ν] (p dir : Place ν) : Decidable (p.Inside dir) := inferInstanceAs (Decidable (_ ∧ _))

/-- How file names are read.  The first piece of one is a drive, nothing (the top of the current drive), or
a name in a current directory; `segment` takes names that differ in case only, and the like, as one. -/
structure Windows (ν : Type) where
  start : Text → Place ν
  segment : Text → Seg ν
  segment_nil : segment [] = .stay
  segment_dot : segment (ascii ".") = .stay
  segment_dots : segment (ascii "..") = .up

def isSlash (c : UInt8) : Bool := c = 47 || c = 92

def pieces (t : Text) : List Text := t.splitOnP isSlash

/-- The piece before the first separator. -/
def lead (t : Text) : Text := (pieces t).headD []

/-- Both separators count, and what `.` and `..` say is taken from the text alone. -/
def Windows.locate (w : Windows ν) (t : Text) : Place ν :=
  ⟨(w.start (lead t)).drive, walk (w.start (lead t)).names ((pieces t).tail.map w.segment)⟩

inductive Entry where
  | file
  | directory
  deriving DecidableEq, Repr

/-! ## `Http.php` -/

structure Config where
  documentRoot : Text
  /-- `404` -/
  page404 : Option Text
  index : Text

def Config.notFund (config : Config) : Text := config.page404.getD []

section
variable (w : Windows ν) (disk : Place ν → Option Entry) (config : Config)

/-- No file has the empty name. -/
def fileExists (t : Text) : Bool := t ≠ [] && (disk (w.locate t)).isSome

def isFile (t : Text) : Bool := t ≠ [] && disk (w.locate t) = some .file

def indexFile (name : Text) : Text := config.documentRoot ++ ascii "/" ++ trim name

/-- The first of the index that exists. -/
def firstIndex : Option Text :=
  (explode (ascii " ") config.index).find? fun name => fileExists w disk (indexFile config name)

/-- `getRealPath` behind the first `if`. -/
def indexPath : Text :=
  match firstIndex w disk config with
  | some name => replaceSlash (indexFile config name)
  | none =>
    if truthy config.notFund then
      let path := replaceSlash config.notFund
      -- asked for is the last file of the index
      if fileExists w disk (indexFile config ((explode (ascii " ") config.index).getLastD [])) then replaceSlash path
      else []
    else []

def getRealPath (requestPath : Text) : Text :=
  if requestPath ≠ ascii "/" then
    let path := config.documentRoot ++ requestPath
    if fileExists w disk path then replaceSlash path
    else if truthy config.notFund then
      let path := replaceSlash config.notFund
      if fileExists w disk path then replaceSlash path else indexPath w disk config
    else []
  else indexPath w disk config

/-- What is done with a file. -/
inductive Opened where
  | read (file : Text)
  | included (file : Text)
  deriving DecidableEq, Repr

def Opened.file : Opened → Text
  | .read file => file
  | .included file => file

section
variable (parseUrl : Text → Option Text) (mimeType : Text → Text) (httpMsg : Text)

/-- The path in the first line of the headers; `parseUrl` is that of `parse_url`, where it finds one. -/
def requestFile : Text :=
  let headersStr := (explode (ascii "\r\n\r\n") httpMsg).headD []
  let requestModeStr := (explode (ascii "\r\n") headersStr).headD []
  (parseUrl ((explode (ascii " ") requestModeStr).getD 1 [])).getD []

/-- The file `onreceive` opens.  A directory exists, but reading or including it fails. -/
def onreceive : Option Opened :=
  let httpRequestFile := getRealPath w disk config (requestFile parseUrl httpMsg)
  if mimeType httpRequestFile ∉ [ascii "text/x-php", ascii "text/html"] then
    if truthy httpRequestFile && fileExists w disk httpRequestFile then
      if isFile w disk httpRequestFile then some (.read httpRequestFile) else none
    else none
  else
    if truthy httpRequestFile && fileExists w disk httpRequestFile then
      if isFile w disk httpRequestFile then some (.included httpRequestFile) else none
    else none

end

/-! ## In the document root -/

/-- In the document root, or the page for 404. -/
def Allowed (file : Text) : Prop :=
  (w.locate file).Inside (w.locate config.documentRoot) ∨
    truthy config.notFund = true ∧ w.locate file = w.locate config.notFund

/-- Levels and names of a path behind its lead. -/
def Windows.climb (path : Text) : Climb ν := PathWalk.climb ((pieces path).tail.map w.segment)

/-- A path stays in the document root: behind a separator it goes down by the directories it has left.  A
path without one in front goes on from the last name of the root. -/
def Stays (path : Text) : Prop :=
  let root := w.locate config.documentRoot
  let c := w.climb path
  if lead path = [] then root.names.drop (root.names.length - c.levels) <+: c.names
  else
    let dir := w.locate (config.documentRoot ++ lead path)
    Place.Inside ⟨dir.drive, c.place dir.names⟩ root

/-- It stays there or leads to the page for 404. -/
def Harmless (path : Text) : Prop :=
  Stays w config path ∨
    truthy config.notFund = true ∧ w.locate (config.documentRoot ++ path) = w.locate config.notFund

/-- The index is looked through: for `/`, and where there is neither the file nor the page for 404. -/
def UsesIndex (path : Text) : Prop :=
  path = ascii "/" ∨
    fileExists w disk (config.documentRoot ++ path) = false ∧ truthy config.notFund = true ∧
      fileExists w disk config.notFund = false

end

/-! ## Pieces -/

theorem pieces_ne_nil (t : Text) : pieces t ≠ [] := List.splitOnP_ne_nil isSlash t

theorem pieces_eq (t : Text) : pieces t = lead t :: (pieces t).tail := by
  rw [lead, List.headD_eq_head?_getD, List.head?_eq_some_head (pieces_ne_nil t)]
  exact (List.cons_head_tail (pieces_ne_nil t)).symm

theorem pieces_append_slash {c : UInt8} (hc : isSlash c) (s t : Text) : pieces (s ++ c :: t) = pieces s ++ pieces t :=
  List.splitOnP_append_cons s t hc

/-- A text is its lead, and behind a separator the rest. -/
theorem lead_split (t : Text) :
    lead t = t ∧ (pieces t).tail = [] ∨
      ∃ c rest, isSlash c = true ∧ t = lead t ++ c :: rest ∧ (pieces t).tail = pieces rest := by
  have hfront : ∀ x ∈ t.takeWhile (!isSlash ·), isSlash x = false := fun x hx => by
    simpa using List.mem_takeWhile_imp hx
  cases hrest : t.dropWhile (!isSlash ·) with
  | nil =>
    have htext : t.takeWhile (!isSlash ·) = t := by
      have happend := List.takeWhile_append_dropWhile (p := (!isSlash ·)) (l := t)
      rwa [hrest, List.append_nil] at happend
    rw [htext] at hfront
    have hpieces : pieces t = [t] := List.splitOnP_eq_singleton hfront
    rw [lead, hpieces]
    exact .inl ⟨rfl, rfl⟩
  | cons c rest =>
    have hc : isSlash c = true := by
      have hhead := List.head_dropWhile_not (!isSlash ·) (w := by rw [hrest]; simp)
      simpa [hrest] using hhead
    have htext : t = t.takeWhile (!isSlash ·) ++ c :: rest := by
      rw [← hrest, List.takeWhile_append_dropWhile]
    have hpieces : pieces t = t.takeWhile (!isSlash ·) :: pieces rest := by
      nth_rewrite 1 [htext]
      exact List.splitOnP_append_cons_of_forall_mem hfront c hc rest
    rw [lead, hpieces]
    exact .inr ⟨c, rest, hc, htext, rfl⟩

/-- Putting a text in front changes the lead only. -/
theorem pieces_append (s t : Text) : pieces (s ++ t) = pieces (s ++ lead t) ++ (pieces t).tail := by
  obtain ⟨hlead, htail⟩ | ⟨c, rest, hc, htext, htail⟩ := lead_split t
  · rw [hlead, htail, List.append_nil]
  · rw [htail, ← pieces_append_slash hc, List.append_assoc, ← htext]

theorem pieces_replaceSlash (t : Text) : pieces (replaceSlash t) = pieces t := by
  induction t with
  | nil => rfl
  | cons c t ih =>
    have hcons : replaceSlash (c :: t) = (if c = 92 then 47 else c) :: replaceSlash t := rfl
    rw [hcons, pieces, pieces, List.splitOnP_cons_eq_if_modifyHead, List.splitOnP_cons_eq_if_modifyHead]
    change (if _ then [] :: pieces (replaceSlash t) else (pieces (replaceSlash t)).modifyHead _) = _
    rw [ih]
    by_cases hc : c = 92
    · subst hc
      rfl
    · rw [if_neg hc]
      rfl

/-! ## Places -/

section
variable (w : Windows ν) (disk : Place ν → Option Entry) (config : Config)

theorem locate_append (s t : Text) : w.locate (s ++ t) =
    ⟨(w.locate (s ++ lead t)).drive, (w.climb t).place (w.locate (s ++ lead t)).names⟩ := by
  have hlead : lead (s ++ t) = lead (s ++ lead t) := by
    rw [lead, pieces_append, pieces_eq (s ++ lead t)]
    rfl
  have htail : (pieces (s ++ t)).tail = (pieces (s ++ lead t)).tail ++ (pieces t).tail := by
    rw [pieces_append, List.tail_append_of_ne_nil (pieces_ne_nil _)]
  rw [Windows.locate, hlead, htail, List.map_append, walk_append, walk_eq _ ((pieces t).tail.map w.segment)]
  rfl

/-- **`Stays` says where a path behind the root leads.** -/
theorem inside_iff (path : Text) :
    (w.locate (config.documentRoot ++ path)).Inside (w.locate config.documentRoot) ↔ Stays w config path := by
  rw [locate_append, Stays]
  by_cases hlead : lead path = []
  · rw [if_pos hlead, hlead, List.append_nil, Place.Inside, Windows.climb, ← walk_eq, prefix_walk_iff]
    exact and_iff_right rfl
  · rw [if_neg hlead]

theorem allowed_iff (path : Text) : Allowed w config (config.documentRoot ++ path) ↔ Harmless w config path := by
  rw [Allowed, inside_iff, Harmless]

/-- **A path that starts with a separator and leaves no directory above it is harmless.** -/
theorem harmless_of_levels {path : Text} (hlead : lead path = []) (hlevels : (w.climb path).levels = 0) :
    Harmless w config path := by
  have hinside : w.locate config.documentRoot = w.locate (config.documentRoot ++ lead path) := by
    rw [hlead, List.append_nil]
  refine .inl ((inside_iff w config path).mp ?_)
  rw [locate_append, ← hinside, Windows.climb, ← walk_eq]
  exact ⟨rfl, prefix_walk_of_levels hlevels⟩

/-! ## The file that is opened -/

/-- What is opened under a name is allowed. -/
def Sound (file : Text) : Prop := truthy file = true → isFile w disk file = true → Allowed w config file

theorem locate_replaceSlash (t : Text) : w.locate (replaceSlash t) = w.locate t := by
  rw [Windows.locate, lead, pieces_replaceSlash]
  rfl

theorem replaceSlash_eq_nil (t : Text) : replaceSlash t = [] ↔ t = [] := List.map_eq_nil_iff

theorem replaceSlash_eq_zero (t : Text) : replaceSlash t = ascii "0" ↔ t = ascii "0" := by
  constructor
  · intro h
    obtain ⟨c, rfl, hc⟩ := List.map_eq_singleton_iff.mp (show t.map (fun c => if c = 92 then 47 else c) = [48] from h)
    split at hc
    · cases hc
    · rw [hc]
      rfl
  · rintro rfl
    rfl

theorem truthy_replaceSlash (t : Text) : truthy (replaceSlash t) = truthy t := by
  simp only [truthy, ne_eq, replaceSlash_eq_nil, replaceSlash_eq_zero]

theorem fileExists_replaceSlash (t : Text) : fileExists w disk (replaceSlash t) = fileExists w disk t := by
  simp only [fileExists, locate_replaceSlash, ne_eq, replaceSlash_eq_nil]

theorem isFile_replaceSlash (t : Text) : isFile w disk (replaceSlash t) = isFile w disk t := by
  simp only [isFile, locate_replaceSlash, ne_eq, replaceSlash_eq_nil]

theorem sound_replaceSlash (t : Text) : Sound w disk config (replaceSlash t) ↔ Sound w disk config t := by
  rw [Sound, Sound, truthy_replaceSlash, isFile_replaceSlash, Allowed, Allowed, locate_replaceSlash]

theorem sound_nil : Sound w disk config [] := fun h => absurd h (by decide)

theorem sound_notFund : Sound w disk config config.notFund := fun h _ => .inr ⟨h, rfl⟩

theorem fileExists_of_isFile {t : Text} (h : isFile w disk t = true) : fileExists w disk t = true := by
  rw [isFile, Bool.and_eq_true, decide_eq_true_eq, decide_eq_true_eq] at h
  rw [fileExists, h.2]
  simp [h.1]

/-- What is in the index is never falsy. -/
theorem truthy_indexFile (name : Text) : truthy (indexFile config name) = true := by
  have hmem : 47 ∈ indexFile config name :=
    List.mem_append_left _ (List.mem_append_right _ (by decide))
  have hnil : indexFile config name ≠ [] := List.ne_nil_of_mem hmem
  have hzero : indexFile config name ≠ ascii "0" := fun h => absurd hmem (by rw [h]; decide)
  simp only [truthy, ne_eq, hnil, hzero, not_false_eq_true, decide_true, Bool.and_self]

/-- **The index.** -/
theorem sound_indexPath : Sound w disk config (indexPath w disk config) ↔
    ∀ name ∈ firstIndex w disk config, isFile w disk (indexFile config name) = true →
      Harmless w config (ascii "/" ++ trim name) := by
  rw [indexPath]
  cases hfirst : firstIndex w disk config with
  | some name =>
    have hallowed : Allowed w config (indexFile config name) ↔ Harmless w config (ascii "/" ++ trim name) := by
      rw [indexFile, List.append_assoc, allowed_iff]
    rw [sound_replaceSlash, Sound, hallowed]
    simp only [truthy_indexFile, forall_const, Option.mem_some_iff, forall_eq']
  | none =>
    refine iff_of_true ?_ (by simp)
    -- neither is the last name there
    have hlast := List.find?_eq_none.mp hfirst _ (getLastD_explode_mem (ascii " ") config.index)
    dsimp only
    rw [if_neg hlast, ite_self]
    exact sound_nil w disk config

theorem sound_getRealPath (path : Text) : Sound w disk config (getRealPath w disk config path) ↔
    (path ≠ ascii "/" → Sound w disk config (config.documentRoot ++ path)) ∧
      (UsesIndex w disk config path → Sound w disk config (indexPath w disk config)) := by
  rw [getRealPath]
  by_cases hpath : path = ascii "/"
  · rw [if_neg (by simp [hpath]), iff_comm, and_iff_right fun h => absurd hpath h]
    exact forall_prop_of_true (.inl hpath)
  rw [if_pos hpath]
  dsimp only
  cases hexists : fileExists w disk (config.documentRoot ++ path) with
  | true =>
    have hindex : ¬ UsesIndex w disk config path := by simp [UsesIndex, hpath, hexists]
    rw [if_pos rfl, sound_replaceSlash, iff_comm, and_iff_left fun h => absurd h hindex]
    exact forall_prop_of_true hpath
  | false =>
    have hpathSound : Sound w disk config (config.documentRoot ++ path) := fun _ hfile => by
      rw [fileExists_of_isFile w disk hfile] at hexists
      cases hexists
    rw [if_neg Bool.false_ne_true, fileExists_replaceSlash, and_iff_right fun _ => hpathSound]
    cases htruthy : truthy config.notFund with
    | false =>
      have hindex : ¬ UsesIndex w disk config path := by simp [UsesIndex, hpath, htruthy]
      exact iff_of_true (sound_nil w disk config) fun h => absurd h hindex
    | true =>
      cases hnotFund : fileExists w disk config.notFund with
      | true =>
        have hindex : ¬ UsesIndex w disk config path := by simp [UsesIndex, hpath, hnotFund]
        refine iff_of_true ?_ fun h => absurd h hindex
        rw [if_pos rfl, if_pos rfl, sound_replaceSlash, sound_replaceSlash]
        exact sound_notFund w disk config
      | false =>
        rw [if_pos rfl, if_neg Bool.false_ne_true, iff_comm]
        exact forall_prop_of_true (.inr ⟨hexists, htruthy, hnotFund⟩)

section
variable (parseUrl : Text → Option Text) (mimeType : Text → Text) (httpMsg : Text)

theorem forall_onreceive :
    (∀ o ∈ onreceive w disk config parseUrl mimeType httpMsg, Allowed w config o.file) ↔
      Sound w disk config (getRealPath w disk config (requestFile parseUrl httpMsg)) := by
  rw [onreceive]
  generalize getRealPath w disk config (requestFile parseUrl httpMsg) = file
  rw [Sound]
  cases htruthy : truthy file with
  | false => simp
  | true =>
    cases hfile : isFile w disk file with
    | false => simp
    | true =>
      rw [fileExists_of_isFile w disk hfile]
      by_cases hmime : mimeType file ∉ [ascii "text/x-php", ascii "text/html"]
      · rw [if_pos hmime]
        simp [Opened.file]
      · rw [if_neg hmime]
        simp [Opened.file]

/-- **When the file that is opened is in the document root or the page for 404**: exactly where the path of
the request is harmless, if it names a file behind the root, and so is the first name of the index that
exists, where the index is looked through. -/
theorem onreceive_right_iff :
    (∀ o ∈ onreceive w disk config parseUrl mimeType httpMsg, Allowed w config o.file) ↔
      (requestFile parseUrl httpMsg ≠ ascii "/" →
          truthy (config.documentRoot ++ requestFile parseUrl httpMsg) = true →
          isFile w disk (config.documentRoot ++ requestFile parseUrl httpMsg) = true →
          Harmless w config (requestFile parseUrl httpMsg)) ∧
        (UsesIndex w disk config (requestFile parseUrl httpMsg) →
          ∀ name ∈ firstIndex w disk config, isFile w disk (indexFile config name) = true →
            Harmless w config (ascii "/" ++ trim name)) := by
  rw [forall_onreceive, sound_getRealPath, sound_indexPath, Sound, allowed_iff]

end

end

/-- The current directories are the tops, and every name is told apart. -/
def plainNames : Windows Text where
  start
    | [] => ⟨67, []⟩
    | [drive, 58] => ⟨drive, []⟩
    | drive :: 58 :: name => ⟨drive, [name]⟩
    | name => ⟨67, [name]⟩
  segment t := if t = [] ∨ t = ascii "." then .stay else if t = ascii ".." then .up else .down t
  segment_nil := rfl
  segment_dot := rfl
  segment_dots := rfl

/-- The script of the service, which is beside the document root, is run again for who asks for it. -/
theorem onreceive_service :
    let config : Config := ⟨ascii "C:/http/www", none, ascii "index.html index.htm index.php"⟩
    let disk (p : Place Text) : Option Entry :=
      if p = ⟨67, [ascii "http", ascii "service.php"]⟩ then some .file else none
    let file := ascii "C:/http/www/../service.php"
    onreceive plainNames disk config some (fun _ => ascii "text/x-php")
        (ascii "GET /../service.php HTTP/1.1\r\nHost: 127.0.0.1:9998\r\n\r\n") = some (.included file) ∧
      ¬ Allowed plainNames config file := by
  refine ⟨by decide +kernel, ?_⟩
  rw [Allowed]
  decide +kernel

end WingPhp.Http
