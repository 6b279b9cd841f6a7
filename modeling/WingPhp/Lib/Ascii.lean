import Mathlib.Logic.Basic

/-!
# ASCII

Texts as bytes, and the case of their letters.
-/

namespace Ascii

/-- The bytes of a text whose characters have one each. -/
def ascii (s : String) : List UInt8 := s.toList.map fun c => UInt8.ofNat c.toNat

def toupper (c : UInt8) : UInt8 := if 97 ≤ c ∧ c ≤ 122 then c - 32 else c

def tolower (c : UInt8) : UInt8 := if 65 ≤ c ∧ c ≤ 90 then c + 32 else c

end Ascii
