import Mathlib.Data.List.Basic
import Mathlib.Logic.Function.Basic

/-!
# Values shared by the two servers and the client object

A `SOCKET` variable is a handle value together with a ghost: the connection for
which Winsock gave out the value.  Every copy of the variable (array cell,
`SELECT_ITEM`, `CLOSE_ITEM`, PHP object, send node) carries the ghost along; no
branch of the program reads it.  `Handles` is Winsock's own table, from handle
values to the connection the value denotes at this moment.
-/

namespace WingPhp

/-- A `SOCKET` variable; `conn` is a ghost. -/
structure Sock where
  value : Nat
  conn : Nat
  deriving DecidableEq, Repr

/-- `INVALID_SOCKET`, `(SOCKET)(~0)` on Win32. -/
def invalidSocketValue : Nat := 0xFFFFFFFF

def invalidSocket : Sock := ⟨invalidSocketValue, 0⟩

/-- `SOCKET_ERROR` (−1) once stored in an `unsigned long`. -/
def socketErrorUlong : Nat := 0xFFFFFFFF

/-- `x - 1` on an `unsigned long`: at `0` it wraps around. -/
def ulongPred (x : Nat) : Nat := if x = 0 then 0xFFFFFFFF else x - 1

theorem ulongPred_of_pos {x : Nat} (h : 0 < x) : ulongPred x = x - 1 := if_neg (by omega)

/-- An `unsigned long` read back as an `int`. -/
def ulongToInt (x : Nat) : Int := if x < 0x80000000 then x else (x : Int) - 0x100000000

def wsaeConnReset : Nat := 10054
def errorNetnameDeleted : Nat := 64
/-- `ERROR_IO_PENDING`, also called `WSA_IO_PENDING`. -/
def wsaIoPending : Nat := 997

/-- `SOCKADDR_IN`. -/
structure SockAddrIn where
  sinFamily : Nat
  sinPort : Nat
  sinAddr : Nat
  sinZero : List UInt8
  deriving DecidableEq, Repr

def SockAddrIn.zero : SockAddrIn := ⟨0, 0, 0, []⟩

/-- `ntohs`: the two bytes of a port number swapped. -/
def ntohs (p : Nat) : Nat := p % 256 * 256 + p / 256 % 256

/-- `CLIENT_IOCP`, `CLIENT_SELECT`. -/
inductive ClientType where
  | iocp
  | select
  deriving DecidableEq, Repr

/-- A `wing_sclient` object as the PHP callbacks see it. -/
structure SClient where
  sinAddr : Nat
  sinPort : Nat
  sinFamily : Nat
  sinZero : List UInt8
  lastActive : Int
  socket : Sock
  online : Nat
  clientType : ClientType
  deriving DecidableEq, Repr

/-- The return codes of `wing_sclient::send`. -/
def wingErrorSuccess : Int := 1
def wingErrorFailed : Int := -2

/-! ## Winsock's handle table -/

/-- The connection each handle value denotes now. -/
abbrev Handles := Nat → Option Nat

namespace Handles

def none : Handles := fun _ => Option.none

/-- `v` now denotes connection `c`. -/
def give (h : Handles) (v c : Nat) : Handles := Function.update h v (some c)

/-- `v` no longer denotes a connection. -/
def drop (h : Handles) (v : Nat) : Handles := Function.update h v Option.none

/-- The variable still denotes the connection it was obtained for. -/
def Denotes (h : Handles) (k : Sock) : Prop := h k.value = some k.conn

instance (h : Handles) (k : Sock) : Decidable (h.Denotes k) :=
  inferInstanceAs (Decidable (h k.value = some k.conn))

theorem Denotes.give {h : Handles} {k : Sock} (hk : h.Denotes k) {v : Nat} (c : Nat)
    (hv : h v = Option.none) : (h.give v c).Denotes k := by
  have hne : k.value ≠ v := fun e => by rw [Denotes, e, hv] at hk; cases hk
  simpa [Denotes, Handles.give, hne] using hk

theorem Denotes.drop {h : Handles} {k : Sock} (hk : h.Denotes k) {v : Nat} (hne : k.value ≠ v) :
    (h.drop v).Denotes k := by
  simpa [Denotes, Handles.drop, hne] using hk

theorem denotes_give_self (h : Handles) (v c : Nat) : (h.give v c).Denotes ⟨v, c⟩ := by
  simp [Denotes, give]

/-- Two variables that denote different connections hold different values. -/
theorem Denotes.value_ne {h : Handles} {k k' : Sock} (hk : h.Denotes k) (hk' : h.Denotes k')
    (hne : k.conn ≠ k'.conn) : k.value ≠ k'.value := by
  intro e
  rw [Denotes] at hk hk'
  rw [e, hk'] at hk
  exact hne (Option.some.inj hk).symm

end Handles

end WingPhp
