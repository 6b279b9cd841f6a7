import Mathlib.Data.List.TakeWhile

/-!
# Memory reached through C pointers

A pointer is the list of the cells from it to the end of its block, or `none` for `NULL`.  A
load or a store that leaves the block, and one through `NULL`, is a `Fault`.  `text` is what
the C string functions see of a block: the cells before its first zero (`loadText`).

Cells are of any type with a zero, so that `char` and `wchar_t` strings share the lemmas.
-/

namespace Memory

inductive Fault where
  | outside
  | null
  deriving DecidableEq, Repr

abbrev Ptr (α : Type) := Option (List α)

/-! ## Steps that can fault -/

theorem bind_eq_ok {ε α β : Type} {x : Except ε α} {f : α → Except ε β} {b : β} :
    (x >>= f) = .ok b ↔ ∃ a, x = .ok a ∧ f a = .ok b := by
  cases x with
  | error e => simp [bind, Except.bind]
  | ok a => simp [bind, Except.bind]

@[simp] theorem ok_bind {ε α β : Type} (a : α) (f : α → Except ε β) :
    ((Except.ok a : Except ε α) >>= f) = f a := rfl

@[simp] theorem error_bind {ε α β : Type} (e : ε) (f : α → Except ε β) :
    ((Except.error e : Except ε α) >>= f) = .error e := rfl

variable {α : Type}

/-- Read `n` cells. -/
def load (p : Ptr α) (n : Nat) : Except Fault (List α) :=
  if n = 0 then .ok []
  else
    match p with
    | none => .error .null
    | some mem => if n ≤ mem.length then .ok (mem.take n) else .error .outside

/-- Write `data` from cell `i` on. -/
def store (mem : List α) (i : Nat) (data : List α) : Except Fault (List α) :=
  if i + data.length ≤ mem.length then
    .ok (mem.take i ++ data ++ mem.drop (i + data.length))
  else .error .outside

/-- `memcpy(&mem[i], p, n)`. -/
def memcpy (mem : List α) (i : Nat) (p : Ptr α) (n : Nat) : Except Fault (List α) := do
  store mem i (← load p n)

theorem load_eq_ok {p : Ptr α} {n : Nat} {data : List α} (h : load p n = .ok data) :
    data.length = n ∧ (n = 0 ∨ ∃ mem, p = some mem ∧ n ≤ mem.length ∧ data = mem.take n) := by
  unfold load at h
  split at h
  · next hn =>
    cases h
    exact ⟨hn.symm, .inl hn⟩
  · split at h
    · cases h
    · next mem =>
      split at h
      · next hle =>
        cases h
        exact ⟨List.length_take_of_le hle, .inr ⟨mem, rfl, hle, rfl⟩⟩
      · cases h

theorem load_some {mem : List α} {n : Nat} (h : n ≤ mem.length) :
    load (some mem) n = .ok (mem.take n) := by
  unfold load
  split
  · next hn => rw [hn, List.take_zero]
  · exact if_pos h

theorem load_append (data rest : List α) :
    load (some (data ++ rest)) data.length = .ok data := by
  rw [load_some (by simp), List.take_left]

theorem store_eq_ok {mem : List α} {i : Nat} {data mem' : List α} (h : store mem i data = .ok mem') :
    i + data.length ≤ mem.length ∧ mem' = mem.take i ++ data ++ mem.drop (i + data.length) := by
  unfold store at h
  split at h
  · next hle =>
    cases h
    exact ⟨hle, rfl⟩
  · cases h

theorem length_store {mem : List α} {i : Nat} {data mem' : List α} (h : store mem i data = .ok mem') :
    mem'.length = mem.length := by
  obtain ⟨hle, rfl⟩ := store_eq_ok h
  simp only [List.length_append, List.length_take, List.length_drop]
  omega

theorem store_ok {mem data : List α} {i : Nat} (h : i + data.length ≤ mem.length) :
    store mem i data = .ok (mem.take i ++ (data ++ mem.drop (i + data.length))) := by
  rw [store, if_pos h, List.append_assoc]

theorem store_outside {mem data : List α} {i : Nat} (h : ¬ i + data.length ≤ mem.length) :
    store mem i data = .error .outside := if_neg h

/-- A store in two parts. -/
theorem store_append (mem : List α) (i : Nat) (a b : List α) :
    store mem i (a ++ b) = store mem i a >>= fun mem' => store mem' (i + a.length) b := by
  by_cases ha : i + a.length ≤ mem.length
  · have htake : (mem.take i).length = i := List.length_take_of_le (by omega)
    have hlen := length_store (store_ok ha)
    rw [store_ok ha, ok_bind]
    by_cases hb : i + a.length + b.length ≤ mem.length
    · have hfront : (mem.take i ++ a).length = i + a.length := by rw [List.length_append, htake]
      have hback : (mem.take i ++ a ++ mem.drop (i + a.length)).drop (i + a.length + b.length) =
          mem.drop (i + a.length + b.length) := by
        rw [List.drop_append, hfront, List.drop_eq_nil_of_le (by omega), List.nil_append, List.drop_drop,
          Nat.add_sub_cancel_left]
      rw [store_ok (by rw [List.length_append]; omega), store_ok (by omega),
        ← List.append_assoc (mem.take i) a, List.take_left' hfront, hback, List.length_append,
        ← Nat.add_assoc]
      simp only [List.append_assoc]
    · rw [store_outside (by rw [List.length_append]; omega), store_outside (by omega)]
  · rw [store_outside ha, error_bind, store_outside (by rw [List.length_append]; omega)]

/-- What is stored over, by at least as much, leaves no trace. -/
theorem store_store {mem a b : List α} {i : Nat} (h : a.length ≤ b.length) :
    (store mem i a >>= fun mem' => store mem' i b) = store mem i b := by
  by_cases ha : i + a.length ≤ mem.length
  · have htake : (mem.take i).length = i := List.length_take_of_le (by omega)
    have hlen := length_store (store_ok ha)
    rw [store_ok ha, ok_bind]
    by_cases hb : i + b.length ≤ mem.length
    · rw [store_ok hb, store_ok (by omega), List.take_left' htake, List.drop_append, htake,
        List.drop_eq_nil_of_le (by omega), List.nil_append, List.drop_append,
        List.drop_eq_nil_of_le (by omega), List.nil_append, List.drop_drop,
        show i + a.length + (i + b.length - i - a.length) = i + b.length by omega]
    · rw [store_outside hb, store_outside (by omega)]
  · rw [store_outside ha, error_bind, store_outside (by omega)]

theorem memcpy_append {mem : List α} {i : Nat} {data : List α} (rest : List α)
    (h : i + data.length ≤ mem.length) :
    memcpy mem i (some (data ++ rest)) data.length =
      .ok (mem.take i ++ data ++ mem.drop (i + data.length)) := by
  rw [memcpy, load_append, ok_bind, store, if_pos h]

theorem memcpy_eq_ok {mem : List α} {i : Nat} {p : Ptr α} {n : Nat} {mem' : List α}
    (h : memcpy mem i p n = .ok mem') :
    ∃ data, load p n = .ok data ∧ i + n ≤ mem.length ∧
      mem' = mem.take i ++ data ++ mem.drop (i + n) := by
  obtain ⟨data, hload, hstore⟩ := bind_eq_ok.mp h
  obtain ⟨hle, hmem⟩ := store_eq_ok hstore
  rw [(load_eq_ok hload).1] at hle hmem
  exact ⟨data, hload, hle, hmem⟩

/-! ## Texts -/

section Text

variable [OfNat α 0]

/-- A fresh block, cleared. -/
def malloc (n : Nat) : List α := List.replicate n 0

@[simp] theorem length_malloc (n : Nat) : (malloc n : List α).length = n := List.length_replicate

/-- What is written at the front of a cleared block. -/
theorem store_malloc {data : List α} {n : Nat} (h : data.length ≤ n) :
    store (malloc n) 0 data = .ok (data ++ malloc (n - data.length)) := by
  rw [store, if_pos (by rw [length_malloc]; omega)]
  simp [malloc]

theorem memcpy_malloc (data rest : List α) {n : Nat} (h : data.length ≤ n) :
    memcpy (malloc n) 0 (some (data ++ rest)) data.length =
      .ok (data ++ malloc (n - data.length)) := by
  rw [memcpy, load_append, ok_bind, store_malloc h]

/-- A block filled by a copy is what was read. -/
theorem memcpy_of_load {p : Ptr α} {n : Nat} {block : List α} (h : load p n = .ok block) :
    memcpy (malloc n) 0 p n = .ok block := by
  have hlen := (load_eq_ok h).1
  rw [memcpy, h, ok_bind, store_malloc (Nat.le_of_eq hlen), hlen, Nat.sub_self]
  exact congrArg Except.ok (List.append_nil block)

theorem load_of_memcpy {p : Ptr α} {n : Nat} {block : List α}
    (h : memcpy (malloc n) 0 p n = .ok block) : load p n = .ok block := by
  obtain ⟨data, hload, -, rfl⟩ := memcpy_eq_ok h
  rw [hload]
  simp [malloc]

theorem getLast?_malloc {n : Nat} (h : 0 < n) : (malloc n : List α).getLast? = some 0 := by
  rw [malloc, List.getLast?_replicate, if_neg (by omega)]

/-- A store that ends before the last cell, or with a zero, leaves a zero there. -/
theorem getLast?_store {mem mem' data : List α} {i : Nat} (h : store mem i data = .ok mem')
    (hlast : mem.getLast? = some 0)
    (hdata : i + data.length < mem.length ∨ data.getLast? = some 0) : mem'.getLast? = some 0 := by
  obtain ⟨hle, rfl⟩ := store_eq_ok h
  rw [List.getLast?_append]
  by_cases hlt : i + data.length < mem.length
  · rw [List.getLast?_drop, if_neg (by omega), hlast]
    rfl
  · rw [List.drop_eq_nil_of_le (by omega), List.getLast?_append, hdata.resolve_left hlt]
    rfl

variable [DecidableEq α]

/-- The cells before the first zero. -/
def text (mem : List α) : List α := mem.takeWhile (· ≠ 0)

/-- What `strlen` and the other readers of a text go through. -/
def loadText : Ptr α → Except Fault (List α)
  | none => .error .null
  | some mem => if 0 ∈ mem then .ok (text mem) else .error .outside

theorem zero_not_mem_text (mem : List α) : 0 ∉ text mem := by
  intro h
  have hb := List.mem_takeWhile_imp h
  simp at hb

theorem text_append {mem : List α} (h : 0 ∈ mem) (rest : List α) : text (mem ++ rest) = text mem := by
  induction mem with
  | nil => cases h
  | cons b mem ih =>
    by_cases hb : b = 0
    · simp [text, hb]
    · have hmem : 0 ∈ mem := (List.mem_cons.mp h).resolve_left fun e => hb e.symm
      simpa [text, hb] using ih hmem

theorem text_of_not_mem {mem : List α} (h : 0 ∉ mem) (rest : List α) :
    text (mem ++ rest) = mem ++ text rest := by
  refine List.takeWhile_append_of_pos fun b hb => decide_eq_true ?_
  rintro rfl
  exact h hb

/-- A text with its zero behind it reads back as itself. -/
theorem text_terminated {t : List α} (h : 0 ∉ t) (rest : List α) : text (t ++ 0 :: rest) = t := by
  rw [text_of_not_mem h]
  simp [text]

theorem length_text_le (mem : List α) : (text mem).length ≤ mem.length :=
  (List.takeWhile_sublist _).length_le

/-- Before a zero the text ends. -/
theorem length_text_lt {mem : List α} (h : 0 ∈ mem) : (text mem).length < mem.length := by
  apply Nat.lt_of_le_of_ne (length_text_le mem)
  intro hlen
  have heq : text mem = mem := (List.takeWhile_prefix _).eq_of_length hlen
  rw [← heq] at h
  exact zero_not_mem_text mem h

theorem text_append_zero {mem : List α} (h : 0 ∈ mem) : text mem ++ [0] <+: mem := by
  induction mem with
  | nil => cases h
  | cons b mem ih =>
    by_cases hb : b = 0
    · subst hb
      exact ⟨mem, by simp [text]⟩
    · have hmem : 0 ∈ mem := (List.mem_cons.mp h).resolve_left fun e => hb e.symm
      obtain ⟨rest, hrest⟩ := ih hmem
      refine ⟨rest, ?_⟩
      rw [show text (b :: mem) = b :: text mem by simp [text, hb], List.cons_append, List.cons_append,
        hrest]

/-- With its zero, a text is the front of its block. -/
theorem take_text {mem : List α} (h : 0 ∈ mem) :
    mem.take ((text mem).length + 1) = text mem ++ [0] := by
  have hfront := List.prefix_iff_eq_take.mp (text_append_zero h)
  rw [List.length_append] at hfront
  exact hfront.symm

theorem getElem?_text {mem : List α} (h : 0 ∈ mem) : mem[(text mem).length]? = some 0 := by
  have hcell := congrArg (fun l => l[(text mem).length]?) (take_text h)
  rwa [List.getElem?_take_of_lt (Nat.lt_succ_self _), List.getElem?_concat_length] at hcell

/-- A zero among the first `k` cells ends the text there. -/
theorem length_text_lt_of_take {mem : List α} {k : Nat} (h : 0 ∈ mem.take k) :
    (text mem).length < k := by
  have hsame : text mem = text (mem.take k) :=
    (congrArg text (List.take_append_drop k mem).symm).trans (text_append h _)
  rw [hsame]
  exact Nat.lt_of_lt_of_le (length_text_lt h) (List.length_take_le _ _)

theorem loadText_terminated {t : List α} (h : 0 ∉ t) (rest : List α) :
    loadText (some (t ++ 0 :: rest)) = .ok t := by
  rw [loadText, if_pos (by simp), text_terminated h]

theorem loadText_eq_ok {p : Ptr α} {t : List α} (h : loadText p = .ok t) :
    ∃ mem, p = some mem ∧ 0 ∈ mem ∧ t = text mem := by
  cases p with
  | none => cases h
  | some mem =>
    by_cases hmem : 0 ∈ mem
    · rw [loadText, if_pos hmem] at h
      cases h
      exact ⟨mem, rfl, hmem, rfl⟩
    · rw [loadText, if_neg hmem] at h
      cases h

theorem text_malloc (n : Nat) : text (malloc n : List α) = [] := by
  cases n with
  | zero => rfl
  | succ n => simp [text, malloc, List.replicate_succ]

/-! ## Cleared behind the text -/

/-- Behind its first zero a block has zeros only. -/
def Cleared (mem : List α) : Prop := ∀ c ∈ mem.drop (text mem).length, c = 0

instance (mem : List α) : Decidable (Cleared mem) := inferInstanceAs (Decidable (∀ c ∈ _, c = 0))

theorem text_append_drop (mem : List α) : text mem ++ mem.drop (text mem).length = mem := by
  have hfront : text mem = mem.take (text mem).length := List.prefix_iff_eq_take.mp (List.takeWhile_prefix _)
  conv => lhs; lhs; rw [hfront]
  exact List.take_append_drop ..

theorem Cleared.eq {mem : List α} (h : Cleared mem) :
    mem = text mem ++ malloc (mem.length - (text mem).length) := by
  have hzeros : mem.drop (text mem).length = malloc (mem.length - (text mem).length) :=
    List.eq_replicate_iff.mpr ⟨List.length_drop, h⟩
  rw [← hzeros, text_append_drop]

theorem cleared_append_malloc {t : List α} (h : 0 ∉ t) (n : Nat) :
    Cleared (t ++ malloc n) ∧ text (t ++ malloc n) = t := by
  have htext : text (t ++ malloc n) = t := by rw [text_of_not_mem h, text_malloc, List.append_nil]
  refine ⟨?_, htext⟩
  intro c hc
  rw [htext, List.drop_left] at hc
  exact List.eq_of_mem_replicate hc

theorem cleared_of_not_mem {t : List α} (h : 0 ∉ t) : Cleared t ∧ text t = t := by
  have hcleared := cleared_append_malloc h 0
  rwa [show t ++ malloc 0 = t from List.append_nil t] at hcleared

theorem text_concat (t : List α) : text (t ++ [0]) = text t := by
  by_cases h : 0 ∈ t
  · exact Memory.text_append h [0]
  · rw [text_terminated h [], (cleared_of_not_mem h).2]

/-- Of two blocks that are cleared together, at most the first has an end to its text. -/
theorem Cleared.text_append {a b : List α} (h : Cleared (a ++ b)) : text (a ++ b) = text a ++ text b := by
  by_cases ha : 0 ∈ a
  · have hfront := Memory.text_append ha b
    have hzeros : ∀ c ∈ b, c = 0 := by
      intro c hc
      apply h
      rw [hfront, List.drop_append_of_le_length (length_text_le a)]
      exact List.mem_append_right _ hc
    have hb : text b = [] := by
      rw [List.eq_replicate_iff.mpr ⟨rfl, hzeros⟩]
      exact text_malloc b.length
    rw [hfront, hb, List.append_nil]
  · rw [text_of_not_mem ha, (cleared_of_not_mem ha).2]

/-- **Texts written together.**  The first `m` cells of two texts, in a cleared block with room for both blocks
and a zero, are the two blocks just when these are cleared behind a text of at most `m` cells. -/
theorem take_texts_iff (a b : List α) (m : Nat) :
    (text a ++ text b).take m ++ malloc ((a ++ b).length + 1 - min m (text a ++ text b).length) =
      a ++ b ++ [0] ↔ Cleared (a ++ b) ∧ (text (a ++ b)).length ≤ m := by
  have hle : (text a ++ text b).length ≤ (a ++ b).length := by
    rw [List.length_append, List.length_append]
    exact Nat.add_le_add (length_text_le a) (length_text_le b)
  have hfree : 0 ∉ (text a ++ text b).take m := by
    intro hmem
    rcases List.mem_append.mp (List.mem_of_mem_take hmem) with hmem | hmem
    · exact zero_not_mem_text a hmem
    · exact zero_not_mem_text b hmem
  constructor
  · intro heq
    obtain ⟨hcleared, htext⟩ :=
      cleared_append_malloc hfree ((a ++ b).length + 1 - min m (text a ++ text b).length)
    rw [heq, text_concat] at htext
    rw [heq] at hcleared
    refine ⟨fun c hc => hcleared c ?_, ?_⟩
    · rw [text_concat, List.drop_append_of_le_length (length_text_le _)]
      exact List.mem_append_left _ hc
    · rw [htext]
      exact List.length_take_le ..
  · rintro ⟨hcleared, hlen⟩
    have htext := hcleared.text_append
    rw [← htext, List.take_of_length_le hlen, Nat.min_eq_right hlen]
    have hroom : (a ++ b).length + 1 - (text (a ++ b)).length =
        (a ++ b).length - (text (a ++ b)).length + 1 := by
      have := length_text_le (a ++ b)
      omega
    rw [hroom, malloc, List.replicate_succ', ← List.append_assoc]
    congr 1
    exact hcleared.eq.symm

end Text

end Memory
