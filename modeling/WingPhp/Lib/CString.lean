import Mathlib.Data.List.Basic
import WingPhp.Lib.Memory

/-!
# C strings in a block of fixed size

A block is a `char[n]`: storing at its front keeps its size (`overlay`).  Read
as a C string it ends at its first NUL (`upToNul`, which is `Memory.text`); without a NUL
the reader leaves the block (`Terminated` fails).  `upToNul_overlay` says when data stored at
the front of a block is what a reader gets back: when it holds no NUL itself and the
byte left behind it is one.
-/

/-- The bytes before the first NUL. -/
def upToNul (mem : List UInt8) : List UInt8 := mem.takeWhile (· ≠ 0)

theorem zero_not_mem_upToNul (mem : List UInt8) : 0 ∉ upToNul mem := Memory.zero_not_mem_text mem

theorem upToNul_append {mem : List UInt8} (h : 0 ∈ mem) (rest : List UInt8) :
    upToNul (mem ++ rest) = upToNul mem := Memory.text_append h rest

theorem upToNul_of_not_mem {mem : List UInt8} (h : 0 ∉ mem) (rest : List UInt8) :
    upToNul (mem ++ rest) = mem ++ upToNul rest := Memory.text_of_not_mem h rest

/-- A text with its NUL behind it reads back as itself when it holds no other. -/
theorem upToNul_terminated {mem : List UInt8} : upToNul (mem ++ [0]) = mem ↔ 0 ∉ mem := by
  constructor
  · intro h
    rw [← h]
    exact zero_not_mem_upToNul _
  · intro h
    exact Memory.text_terminated h []

theorem length_upToNul_le (mem : List UInt8) : (upToNul mem).length ≤ mem.length :=
  Memory.length_text_le mem

theorem upToNul_eq_nil {mem : List UInt8} : upToNul mem = [] ↔ ∀ b ∈ mem.head?, b = 0 := by
  cases mem with
  | nil => simp [upToNul]
  | cons b mem => by_cases hb : b = 0 <;> simp [upToNul, hb]

structure Block (n : Nat) where
  bytes : List UInt8
  length_eq : bytes.length = n
  deriving DecidableEq, Repr

namespace Block

variable {n : Nat}

/-- `ZeroMemory`. -/
def zero (n : Nat) : Block n := ⟨List.replicate n 0, List.length_replicate⟩

/-- Store `data` at the front; what does not fit is not stored. -/
def overlay (b : Block n) (data : List UInt8) : Block n where
  bytes := data.take n ++ b.bytes.drop data.length
  length_eq := by
    have := b.length_eq
    simp only [List.length_append, List.length_take, List.length_drop]
    omega

/-- A reader of the C string at the front stays inside the block. -/
def Terminated (b : Block n) : Prop := 0 ∈ b.bytes

instance (b : Block n) : Decidable b.Terminated := inferInstanceAs (Decidable (_ ∈ _))

theorem bytes_overlay (b : Block n) {data : List UInt8} (h : data.length ≤ n) :
    (b.overlay data).bytes = data ++ b.bytes.drop data.length := by
  simp [overlay, List.take_of_length_le h]

/-- **Data and its leftover.**  What was stored is read back, inside the block, when
it holds no NUL and the byte after it is the NUL that ends it. -/
theorem upToNul_overlay (b : Block n) {data : List UInt8} (h : data.length ≤ n) :
    (upToNul (b.overlay data).bytes = data ∧ (b.overlay data).Terminated) ↔
      0 ∉ data ∧ b.bytes[data.length]? = some 0 := by
  rw [Terminated, bytes_overlay b h, ← List.head?_drop]
  by_cases hmem : 0 ∈ data
  · -- cut at a NUL of its own
    have hshort : upToNul data ≠ data := by
      intro e
      rw [← e] at hmem
      exact zero_not_mem_upToNul data hmem
    simp [upToNul_append hmem, hshort, hmem]
  · rw [upToNul_of_not_mem hmem, List.append_right_eq_self, upToNul_eq_nil]
    cases hd : b.bytes.drop data.length with
    | nil => simp [hmem]
    | cons x rest =>
      simp only [List.head?_cons, Option.mem_some_iff, forall_eq', List.mem_append, List.mem_cons,
        hmem, not_false_eq_true, true_and, Option.some.injEq, false_or, and_iff_left_iff_imp]
      intro hx
      exact .inl hx.symm

end Block
