import WingPhp.Simples.Crontab

/-!
# The file of `wing_crontab.php`

`paramsFormat` makes of every line the six fields, the program and its parameters.  Runs of blanks count as
one, lines that are empty or start with `#` are left out.  The parameters are what `ltrim` leaves of the rest
of the line when the characters of the program are taken off its front, one by one and in any order.

`paramsFormat_file` reads a written file back.  A program in quotes with a blank in its path takes leading
characters of its parameters with it.  A `..` in a path is a range of characters, and the parameters may then
start with a piece of the path.
-/

namespace WingPhp.Crontab

open Ascii PhpText

/-! ## Strings of PHP -/

/-- `preg_replace("/ +/", " ", t)` -/
def squeeze : Text → Text
  | 32 :: 32 :: t => squeeze (32 :: t)
  | c :: t => c :: squeeze t
  | [] => []

/-- `explode` with a limit of one more than `cuts`. -/
def explodeLimit (separator : UInt8) : Nat → Text → List Text
  | 0, t => [t]
  | cuts + 1, t =>
    if separator ∈ t then
      t.takeWhile (· ≠ separator) :: explodeLimit separator cuts ((t.dropWhile (· ≠ separator)).drop 1)
    else [t]

def implode (t : List Text) : Text := [32].intercalate t

/-- The characters `ltrim` and `trim` take off.  Two dots between two characters are a range, if these are in
order, and are no characters then; two dots with nothing on their left are none either. -/
def charMask (c : UInt8) : Text → Bool
  | a :: 46 :: 46 :: d :: rest =>
    if a ≤ d then (a ≤ c && c ≤ d) || charMask c rest else (a ≠ 46 && a = c) || charMask c (46 :: 46 :: d :: rest)
  | a :: 46 :: rest => (a ≠ 46 && a = c) || charMask c (46 :: rest)
  | a :: rest => a = c || charMask c rest
  | [] => false

def ltrim (t charList : Text) : Text := t.dropWhile (charMask · charList)

/-- `trim` with one character. -/
def trimChar (c : UInt8) (t : Text) : Text := (t.dropWhile (· = c)).rdropWhile (· = c)

/-- `empty` -/
def isEmpty (t : Text) : Bool := t = [] || t = ascii "0"

/-- `$matches[0]` of `/"(.*?)"/` for a text that starts with a quote; nothing without a second one. -/
def quoted (t : Text) : Text :=
  if 34 ∈ t.drop 1 then 34 :: (t.drop 1).takeWhile (· ≠ 34) ++ [34] else []

/-! ## `paramsFormat` -/

structure Entry where
  timesTab : Text
  exePath : Text
  params : Text
  deriving DecidableEq, Repr

section
variable (fileExists : Text → Bool) (wingGetCommandPath : Text → Text)

def findCommand (exePath : Text) : Text := if fileExists exePath then exePath else wingGetCommandPath exePath

/-- One line. -/
def formatLine (crontab : Text) : Option Entry :=
  let crontab := trim crontab
  if crontab.head? = some 35 || isEmpty crontab then none
  else
    let splits := explodeLimit 32 6 (squeeze crontab)
    let rest := splits.getLastD []
    let timesTab := implode splits.dropLast
    let commands := trim rest
    let exePath := if commands.head? = some 34 then quoted commands else (explode (ascii " ") commands).getD 0 []
    let params := ltrim rest exePath
    let exePath := trimChar 34 (trim exePath)
    some ⟨timesTab, findCommand fileExists wingGetCommandPath exePath, trim params⟩

def paramsFormat (crontabContents : Text) : List Entry :=
  (explode (ascii "\n") crontabContents).filterMap (formatLine fileExists wingGetCommandPath)

end

/-! ## Written lines -/

/-- Something written without blanks. -/
structure Word where
  text : Text
  ne_nil : text ≠ []
  clean : ∀ c ∈ text, isBlank c = false

/-- Words with blanks between, one more than each number says. -/
def spread : List (Word × Nat) → Text
  | [] => []
  | [w] => w.1.text
  | w :: w' :: ws => w.1.text ++ (List.replicate (w.2 + 1) 32 ++ spread (w' :: ws))

def words (ws : List (Word × Nat)) : List Text := ws.map (·.1.text)

theorem implode_cons {t : Text} {ts : List Text} (h : ts ≠ []) : implode (t :: ts) = t ++ 32 :: implode ts := by
  rw [implode, List.intercalate_cons_of_ne_nil h, List.append_assoc]
  rfl

theorem implode_singleton (t : Text) : implode [t] = t := by simp [implode, List.intercalate]

theorem Word.not_mem (w : Word) : 32 ∉ w.text := fun h => absurd (w.clean 32 h) (by decide)

/-! ## `squeeze` -/

theorem squeeze_cons_of_ne {c : UInt8} (hc : c ≠ 32) (t : Text) : squeeze (c :: t) = c :: squeeze t := by
  rw [squeeze]
  rintro t' rfl
  exact absurd rfl hc

theorem squeeze_append {s : Text} (hs : 32 ∉ s) (t : Text) : squeeze (s ++ t) = s ++ squeeze t := by
  induction s with
  | nil => rfl
  | cons c s ih =>
    have hc : c ≠ 32 := fun h => hs (h ▸ List.mem_cons_self)
    rw [List.cons_append, squeeze_cons_of_ne hc, ih fun h => hs (List.mem_cons_of_mem _ h), List.cons_append]

theorem squeeze_replicate (n : Nat) {c : UInt8} (hc : c ≠ 32) (t : Text) :
    squeeze (List.replicate (n + 1) 32 ++ c :: t) = 32 :: squeeze (c :: t) := by
  induction n with
  | zero =>
    rw [List.replicate_one, List.singleton_append, squeeze]
    rintro t' - h
    exact hc (List.cons.inj h).1
  | succ n ih =>
    rw [List.replicate_succ, List.replicate_succ, List.cons_append, List.cons_append, squeeze, ← ih]
    rfl

/-- The text starts with the first word. -/
theorem spread_prefix (w : Word × Nat) (ws : List (Word × Nat)) : w.1.text <+: spread (w :: ws) := by
  cases ws with
  | nil => exact List.prefix_rfl
  | cons w' ws => exact List.prefix_append _ _

theorem spread_head (w : Word × Nat) (ws : List (Word × Nat)) :
    ∃ c t, spread (w :: ws) = c :: t ∧ w.1.text.head? = some c ∧ isBlank c = false := by
  obtain ⟨rest, hrest⟩ := spread_prefix w ws
  obtain ⟨c, t, ht⟩ := List.exists_cons_of_ne_nil w.1.ne_nil
  refine ⟨c, t ++ rest, by rw [← hrest, ht]; rfl, by rw [ht]; rfl, w.1.clean c ?_⟩
  rw [ht]
  exact List.mem_cons_self

/-- **Blanks are squeezed into one.** -/
theorem squeeze_spread {ws : List (Word × Nat)} (h : ws ≠ []) : squeeze (spread ws) = implode (words ws) := by
  induction ws with
  | nil => exact absurd rfl h
  | cons w ws ih =>
    cases ws with
    | nil =>
      have hall := squeeze_append w.1.not_mem []
      rw [List.append_nil, squeeze, List.append_nil] at hall
      rw [spread, hall, words, List.map_singleton, implode_singleton]
    | cons w' ws =>
      obtain ⟨c, t, hct, -, hblank⟩ := spread_head w' ws
      have hc : c ≠ 32 := by
        rintro rfl
        exact absurd hblank (by decide)
      have hne : words (w' :: ws) ≠ [] := by simp [words]
      rw [spread, squeeze_append w.1.not_mem, hct, squeeze_replicate _ hc, ← hct, ih (List.cons_ne_nil _ _)]
      change _ = implode (w.1.text :: words (w' :: ws))
      rw [implode_cons hne]

/-! ## `explode` with a limit -/

theorem explodeLimit_append {piece : Text} (h : 32 ∉ piece) (cuts : Nat) (t : Text) :
    explodeLimit 32 (cuts + 1) (piece ++ 32 :: t) = piece :: explodeLimit 32 cuts t := by
  have htake : ∀ x ∈ piece, decide (x ≠ 32) = true := fun x hx => by
    simp only [decide_eq_true_eq]
    rintro rfl
    exact h hx
  rw [explodeLimit, if_pos (by simp), List.takeWhile_append_of_pos htake, List.dropWhile_append_of_pos htake,
    List.takeWhile_cons_of_neg (by simp), List.dropWhile_cons_of_neg (by simp), List.append_nil, List.drop_one,
    List.tail_cons]

/-- The pieces in front, then the rest. -/
theorem explodeLimit_implode {front : List Text} {rest : List Text} (h : ∀ f ∈ front, 32 ∉ f) (hrest : rest ≠ []) :
    explodeLimit 32 front.length (implode (front ++ rest)) = front ++ [implode rest] := by
  induction front with
  | nil => rfl
  | cons f front ih =>
    have hne : front ++ rest ≠ [] := by simp [hrest]
    rw [List.cons_append, implode_cons hne, List.length_cons, explodeLimit_append (h f List.mem_cons_self),
      ih fun g hg => h g (List.mem_cons_of_mem _ hg), List.cons_append]

/-! ## `ltrim` -/

/-- **Without two dots, the characters are those of the list.** -/
theorem charMask_eq (c : UInt8) {m : Text} (h : ¬ [46, 46] <:+: m) : charMask c m = decide (c ∈ m) := by
  fun_induction charMask c m with
  | case1 a d rest hle ih => exact absurd ⟨[a], d :: rest, rfl⟩ h
  | case2 a d rest hle ih => exact absurd ⟨[a], d :: rest, rfl⟩ h
  | case3 a rest hno ih =>
    have ha : a ≠ 46 := by
      rintro rfl
      exact h ⟨[], rest, rfl⟩
    rw [ih fun hi => h (List.infix_cons_iff.mpr (.inr hi))]
    simp [ha, eq_comm]
  | case4 a rest h1 h2 ih =>
    rw [ih fun hi => h (List.infix_cons_iff.mpr (.inr hi))]
    simp [eq_comm]
  | case5 => rfl

theorem ltrim_eq {m : Text} (h : ¬ [46, 46] <:+: m) (t : Text) : ltrim t m = t.dropWhile (· ∈ m) := by
  rw [ltrim]
  exact congrArg (List.dropWhile · t) (funext fun c => charMask_eq c h)

/-! ## The text of a line -/

theorem trimmed_word (w : Word) : Trimmed w.text :=
  ⟨fun c hc => w.clean c (List.mem_of_mem_head? hc), fun c hc => w.clean c (List.mem_of_getLast? hc)⟩

theorem trimmed_append {s t : Text} (hs : Trimmed s) (hsne : s ≠ []) (ht : Trimmed t) (htne : t ≠ []) (mid : Text) :
    Trimmed (s ++ (mid ++ t)) := by
  obtain ⟨c, s', rfl⟩ := List.exists_cons_of_ne_nil hsne
  refine ⟨fun x hx => hs.1 x hx, fun x hx => ht.2 x ?_⟩
  rw [List.getLast?_append_of_ne_nil _ (by simp [htne]), List.getLast?_append_of_ne_nil _ htne] at hx
  exact hx

theorem spread_ne_nil {ws : List (Word × Nat)} (h : ws ≠ []) : spread ws ≠ [] := by
  obtain ⟨w, ws, rfl⟩ := List.exists_cons_of_ne_nil h
  obtain ⟨c, t, hct, -⟩ := spread_head w ws
  rw [hct]
  exact List.cons_ne_nil _ _

theorem trimmed_spread (ws : List (Word × Nat)) : Trimmed (spread ws) := by
  induction ws with
  | nil => exact ⟨by simp [spread], by simp [spread]⟩
  | cons w ws ih =>
    cases ws with
    | nil => exact trimmed_word w.1
    | cons w' ws => exact trimmed_append (trimmed_word w.1) w.1.ne_nil ih (spread_ne_nil (List.cons_ne_nil _ _)) _

theorem implode_ne_nil {ws : List (Word × Nat)} (h : ws ≠ []) : implode (words ws) ≠ [] := by
  obtain ⟨w, ws, rfl⟩ := List.exists_cons_of_ne_nil h
  cases ws with
  | nil =>
    rw [words, List.map_singleton, implode_singleton]
    exact w.1.ne_nil
  | cons w' ws =>
    rw [words, List.map_cons, implode_cons (by simp)]
    simp [w.1.ne_nil]

theorem trimmed_implode (ws : List (Word × Nat)) : Trimmed (implode (words ws)) := by
  induction ws with
  | nil => exact ⟨by simp [words, implode], by simp [words, implode]⟩
  | cons w ws ih =>
    cases ws with
    | nil =>
      rw [words, List.map_singleton, implode_singleton]
      exact trimmed_word w.1
    | cons w' ws =>
      rw [words, List.map_cons, implode_cons (by simp)]
      exact trimmed_append (trimmed_word w.1) w.1.ne_nil ih (implode_ne_nil (List.cons_ne_nil _ _)) [32]

theorem implode_append {s t : List Text} (h : s ≠ []) :
    implode (s ++ t) = implode s ++ if t = [] then [] else 32 :: implode t := by
  by_cases ht : t = []
  · rw [ht, if_pos rfl, List.append_nil, List.append_nil]
  rw [if_neg ht]
  induction s with
  | nil => exact absurd rfl h
  | cons a s ih =>
    cases s with
    | nil => rw [List.singleton_append, implode_cons ht, implode_singleton]
    | cons b s =>
      have hne : b :: s ≠ [] := List.cons_ne_nil _ _
      rw [List.cons_append, implode_cons (by simp), ih hne, implode_cons hne, List.append_assoc, List.cons_append]

/-! ## Jobs -/

/-- A line of the file that says when to run which program.  A path may stand in quotes. -/
structure Job where
  fields : List (Word × Nat)
  program : List (Word × Nat)
  args : List (Word × Nat)
  path : Text
  inQuotes : Bool
  length_fields : fields.length = 6
  field_ne : ∀ w ∈ fields.head?, w.1.text.head? ≠ some 35
  program_ne : program ≠ []
  program_eq : implode (words program) = if inQuotes then 34 :: (path ++ [34]) else path
  path_blank : inQuotes = false → 32 ∉ path
  path_quote : 34 ∉ path

namespace Job

variable (j : Job)

def all : List (Word × Nat) := j.fields ++ (j.program ++ j.args)

def exePath : Text := if j.inQuotes then 34 :: (j.path ++ [34]) else j.path

/-- The parameters, as they are written but for more than one blank. -/
def written : Text := implode (words j.args)

/-- The program and its parameters. -/
def command : Text := j.exePath ++ if j.args = [] then [] else 32 :: j.written

/-- What is left of the parameters.  With two dots in the path they start at the first character that the path
neither holds nor has between the ends of a range.  With a blank in it, leading characters that are in it too,
or quotes, go with the path. -/
def kept : Text :=
  if [46, 46] <:+: j.path then trim (j.command.dropWhile (charMask · j.exePath))
  else if 32 ∈ j.path then trim (j.written.dropWhile fun c => decide (c = 34 ∨ c ∈ j.path))
  else j.written

theorem dots_exePath (h : ¬ [46, 46] <:+: j.path) : ¬ [46, 46] <:+: j.exePath := by
  rw [exePath]
  split
  · have hchain := not_pair_infix_iff.mp h
    rw [not_pair_infix_iff, List.isChain_cons]
    refine ⟨fun _ _ h => absurd h.1 (by decide), List.isChain_append.mpr ⟨hchain, List.isChain_singleton _, ?_⟩⟩
    rintro a - b hb ⟨-, rfl⟩
    exact absurd hb (by decide)
  · exact h

theorem written_eq : j.args = [] → j.written = [] := by
  intro h
  rw [written, h]
  rfl

/-- The seventh piece. -/
theorem rest_eq : implode (words (j.program ++ j.args)) = j.command := by
  have hprogram : words j.program ≠ [] := by simp [words, j.program_ne]
  have hexe : implode (words j.program) = j.exePath := j.program_eq
  have happend : words (j.program ++ j.args) = words j.program ++ words j.args := List.map_append
  have hargs : words j.args = [] ↔ j.args = [] := List.map_eq_nil_iff
  rw [happend, implode_append hprogram, hexe, command]
  simp only [hargs]
  rfl

theorem path_ne (h : j.inQuotes = false) : j.path ≠ [] := by
  have hprogram := j.program_eq
  rw [if_neg (by simp [h])] at hprogram
  rw [← hprogram]
  exact implode_ne_nil j.program_ne

/-- **The program is found**, with its quotes. -/
theorem found_eq (tail : Text) (htail : tail = [] ∨ ∃ t, tail = 32 :: t) :
    (if (j.exePath ++ tail).head? = some 34 then quoted (j.exePath ++ tail)
      else (explode (ascii " ") (j.exePath ++ tail)).getD 0 []) = j.exePath := by
  cases hq : j.inQuotes with
  | true =>
    have hexe : j.exePath = 34 :: (j.path ++ [34]) := if_pos hq
    have hall : ∀ c ∈ j.path, decide (c ≠ 34) = true := fun c hc => by
      simp only [decide_eq_true_eq]
      rintro rfl
      exact j.path_quote hc
    have hhead : (34 :: (j.path ++ [34] ++ tail)).head? = some 34 := rfl
    rw [hexe, List.cons_append, if_pos hhead, quoted, List.drop_one, List.tail_cons, if_pos (by simp),
      List.append_assoc, List.takeWhile_append_of_pos hall, List.singleton_append,
      List.takeWhile_cons_of_neg (by simp), List.append_nil]
    rfl
  | false =>
    have hexe : j.exePath = j.path := if_neg (by simp [hq])
    have hblank : 32 ∉ j.path := j.path_blank hq
    obtain ⟨c, p, hp⟩ := List.exists_cons_of_ne_nil (j.path_ne hq)
    have hhead : (j.path ++ tail).head? ≠ some 34 := by
      rw [hp]
      intro h
      obtain rfl : c = 34 := Option.some.inj h
      exact j.path_quote (by rw [hp]; exact List.mem_cons_self)
    rw [hexe, if_neg hhead]
    rcases htail with rfl | ⟨t, rfl⟩
    · have hone : explode (ascii " ") j.path = [j.path] := explode_of_not_mem hblank
      rw [List.append_nil, hone]
      rfl
    · have hcut : explode (ascii " ") (j.path ++ 32 :: t) = j.path :: explode (ascii " ") t :=
        explode_append_of_not_mem hblank t
      rw [hcut]
      rfl

/-- **What is left of the parameters.** -/
theorem ltrim_rest : trim (ltrim (implode (words (j.program ++ j.args))) j.exePath) = j.kept := by
  have hall : ∀ c ∈ j.exePath, decide (c ∈ j.exePath) = true := fun c hc => decide_eq_true hc
  have hwritten : trim j.written = j.written := trim_of_trimmed (trimmed_implode j.args)
  rw [rest_eq, kept]
  by_cases hdots : [46, 46] <:+: j.path
  · rw [if_pos hdots]
    rfl
  rw [if_neg hdots, ltrim_eq (j.dots_exePath hdots), command, List.dropWhile_append_of_pos hall]
  by_cases hargs : j.args = []
  · have hnil : trim [] = [] := rfl
    rw [if_pos hargs, written_eq j hargs]
    simp [hnil]
  rw [if_neg hargs]
  by_cases hblank : 32 ∈ j.path
  · have hq : j.inQuotes = true := by
      cases hq : j.inQuotes with
      | true => rfl
      | false => exact absurd hblank (j.path_blank hq)
    have hexe : j.exePath = 34 :: (j.path ++ [34]) := if_pos hq
    have hmem : ∀ c, c ∈ j.exePath ↔ c = 34 ∨ c ∈ j.path := fun c => by
      rw [hexe]
      simp only [List.mem_cons, List.mem_append, List.not_mem_nil, or_false]
      tauto
    rw [if_pos hblank, List.dropWhile_cons_of_pos (by simp [hmem, hblank])]
    simp only [hmem]
  · have hnot : 32 ∉ j.exePath := by
      rw [exePath]
      split
      · simp [hblank]
      · exact hblank
    rw [if_neg hblank, List.dropWhile_cons_of_neg (by simp [hnot]), trim_blank, hwritten]

theorem trimmed_exePath : Trimmed j.exePath := by
  have hexe : implode (words j.program) = j.exePath := j.program_eq
  rw [← hexe]
  exact trimmed_implode j.program

/-- **The path of the program**, without its quotes. -/
theorem trimChar_exePath : trimChar 34 (trim j.exePath) = j.path := by
  have hend : j.path.rdropWhile (· = 34) = j.path := by
    rw [List.rdropWhile_eq_self_iff]
    intro hne hlast
    exact j.path_quote (decide_eq_true_eq.mp hlast ▸ List.getLast_mem hne)
  have hstart : ∀ t : Text, (j.path ++ t).dropWhile (· = 34) = j.path ++ t ∨ j.path = [] := fun t => by
    cases hp : j.path with
    | nil => exact .inr rfl
    | cons c p =>
      refine .inl (List.dropWhile_cons_of_neg fun hc => j.path_quote ?_)
      rw [hp, decide_eq_true_eq.mp hc]
      exact List.mem_cons_self
  rw [trim_of_trimmed j.trimmed_exePath, trimChar]
  cases hq : j.inQuotes with
  | true =>
    rw [exePath, if_pos hq, List.dropWhile_cons_of_pos (by decide)]
    rcases hstart [34] with hstart | hnil
    · rw [hstart, List.rdropWhile_concat_pos _ _ _ (by decide), hend]
    · rw [hnil]
      rfl
  | false =>
    have hstart := (hstart []).resolve_right (j.path_ne hq)
    rw [List.append_nil] at hstart
    rw [exePath, if_neg (by simp [hq]), hstart, hend]

end Job

/-! ## Files -/

/-- A line of the file. -/
inductive FileLine where
  | job (lead : Text) (j : Job) (trail : Text) (blank : ∀ c ∈ lead ++ trail, isBlank c = true ∧ c ≠ 10)
  | ignored (t : Text) (line : 10 ∉ t) (empty : (trim t).head? = some 35 ∨ isEmpty (trim t) = true)

def FileLine.text : FileLine → Text
  | .job lead j trail _ => lead ++ (spread j.all ++ trail)
  | .ignored t _ _ => t

def fileText (lines : List FileLine) : Text := [10].intercalate (lines.map FileLine.text)

section
variable (fileExists : Text → Bool) (wingGetCommandPath : Text → Text)

def Job.entry (j : Job) : Entry :=
  ⟨implode (words j.fields), findCommand fileExists wingGetCommandPath j.path, j.kept⟩

def FileLine.entry : FileLine → Option Entry
  | .job _ j _ _ => some (j.entry fileExists wingGetCommandPath)
  | .ignored _ _ _ => none

variable {fileExists wingGetCommandPath}

theorem Job.all_ne (j : Job) : j.all ≠ [] := by simp [Job.all, j.program_ne]

/-- A job is no comment, and not empty. -/
theorem Job.not_ignored (j : Job) : ((spread j.all).head? = some 35 || isEmpty (spread j.all)) = false := by
  have hfields : j.fields ≠ [] := by
    intro h
    have hlength := j.length_fields
    rw [h] at hlength
    cases hlength
  obtain ⟨w, fields, hw⟩ := List.exists_cons_of_ne_nil hfields
  have hall : j.all = w :: (fields ++ (j.program ++ j.args)) := by rw [Job.all, hw, List.cons_append]
  obtain ⟨c, t, hct, hhead, -⟩ := spread_head w (fields ++ (j.program ++ j.args))
  have hhash : c ≠ 35 := by
    rintro rfl
    exact j.field_ne w (by rw [hw]; rfl) hhead
  -- there is a blank in it
  have hzero : spread j.all ≠ ascii "0" := by
    intro h
    have hsqueeze := squeeze_spread j.all_ne
    have hlength : words (fields ++ (j.program ++ j.args)) ≠ [] := by simp [words, j.program_ne]
    rw [h, hall] at hsqueeze
    change squeeze (ascii "0") = implode (w.1.text :: words (fields ++ (j.program ++ j.args))) at hsqueeze
    rw [implode_cons hlength] at hsqueeze
    have hmem : 32 ∈ squeeze (ascii "0") := by
      rw [hsqueeze]
      exact List.mem_append_right _ List.mem_cons_self
    exact absurd hmem (by decide)
  rw [hall] at hzero ⊢
  rw [hct] at hzero ⊢
  simp [isEmpty, hhash, hzero]

/-- **One line.** -/
theorem formatLine_text (l : FileLine) :
    formatLine fileExists wingGetCommandPath l.text = l.entry fileExists wingGetCommandPath := by
  cases l with
  | ignored t line empty =>
    have hskip : ((trim t).head? = some 35 || isEmpty (trim t)) = true := by simpa using empty
    exact if_pos hskip
  | job lead j trail blank =>
    have htrim : trim (lead ++ (spread j.all ++ trail)) = spread j.all :=
      trim_append (trimmed_spread j.all)
        (fun c hc => (blank c (List.mem_append_left _ hc)).1) fun c hc => (blank c (List.mem_append_right _ hc)).1
    have hwords : words j.all = words j.fields ++ words (j.program ++ j.args) := List.map_append
    have hlength : (words j.fields).length = 6 := by
      rw [words, List.length_map]
      exact j.length_fields
    have hclean : ∀ f ∈ words j.fields, 32 ∉ f := by
      intro f hf
      obtain ⟨w, -, rfl⟩ := List.mem_map.mp hf
      exact w.1.not_mem
    have hrest : words (j.program ++ j.args) ≠ [] := by simp [words, j.program_ne]
    have hsplits : explodeLimit 32 6 (squeeze (spread j.all)) =
        words j.fields ++ [implode (words (j.program ++ j.args))] := by
      rw [squeeze_spread j.all_ne, hwords, ← hlength]
      exact explodeLimit_implode hclean hrest
    have hcommands : trim (implode (words (j.program ++ j.args))) = implode (words (j.program ++ j.args)) :=
      trim_of_trimmed (trimmed_implode _)
    have hfound := j.found_eq (if j.args = [] then [] else 32 :: j.written) (by
      by_cases hargs : j.args = []
      · exact .inl (if_pos hargs)
      · exact .inr ⟨j.written, if_neg hargs⟩)
    rw [← Job.command, ← j.rest_eq] at hfound
    rw [FileLine.text, formatLine, htrim]
    dsimp only
    rw [if_neg (by simp [j.not_ignored]), hsplits, List.getLastD_concat, List.dropLast_concat, hcommands, hfound,
      j.ltrim_rest, j.trimChar_exePath]
    rfl

theorem not_mem_spread {c : UInt8} (hblank : isBlank c = true) (hc : c ≠ 32) (ws : List (Word × Nat)) :
    c ∉ spread ws := by
  have hword : ∀ w : Word, c ∉ w.text := fun w hmem => by
    rw [w.clean c hmem] at hblank
    cases hblank
  induction ws with
  | nil => exact List.not_mem_nil
  | cons w ws ih =>
    cases ws with
    | nil => exact hword w.1
    | cons w' ws =>
      intro hmem
      rcases List.mem_append.mp hmem with hmem | hmem
      · exact hword w.1 hmem
      rcases List.mem_append.mp hmem with hmem | hmem
      · exact hc (List.eq_of_mem_replicate hmem)
      · exact ih hmem

/-- No line break in a line. -/
theorem FileLine.not_mem (l : FileLine) : 10 ∉ l.text := by
  cases l with
  | ignored t line empty => exact line
  | job lead j trail blank =>
    intro hmem
    rcases List.mem_append.mp hmem with hmem | hmem
    · exact (blank 10 (List.mem_append_left _ hmem)).2 rfl
    rcases List.mem_append.mp hmem with hmem | hmem
    · exact not_mem_spread (by decide) (by decide) _ hmem
    · exact (blank 10 (List.mem_append_right _ hmem)).2 rfl

end

def everySecond : List (Word × Nat) := List.replicate 6 (⟨ascii "*", by decide, by decide +kernel⟩, 0)

/-- `* * * * * * "C:/my php/php.exe"  hello.php 1`; the path takes the first characters of the parameters. -/
def helloJob : Job where
  fields := everySecond
  program :=
    [(⟨ascii "\"C:/my", by decide, by decide +kernel⟩, 0),
      (⟨ascii "php/php.exe\"", by decide, by decide +kernel⟩, 1)]
  args := [(⟨ascii "hello.php", by decide, by decide +kernel⟩, 0), (⟨ascii "1", by decide, by decide +kernel⟩, 0)]
  path := ascii "C:/my php/php.exe"
  inQuotes := true
  length_fields := by decide
  field_ne := by decide
  program_ne := by decide
  program_eq := by decide +kernel
  path_blank := by decide
  path_quote := by decide

/-- `* * * * * * C:/a/../php x.php`; `/../` is a range of one character, and the parameters start in the path. -/
def dotsJob : Job where
  fields := everySecond
  program := [(⟨ascii "C:/a/../php", by decide, by decide +kernel⟩, 0)]
  args := [(⟨ascii "x.php", by decide, by decide +kernel⟩, 0)]
  path := ascii "C:/a/../php"
  inQuotes := false
  length_fields := by decide
  field_ne := by decide
  program_ne := by decide
  program_eq := by decide +kernel
  path_blank := by decide
  path_quote := by decide

end WingPhp.Crontab
