import WingPhp.Lib.CString
import WingPhp.Lib.StreamCipher

/-!
# File encryption (`encrypt.c`, `wing_encrypt_file.c`)

`WingEncryptFile` and `WingDecryptFile` run the same loop: read up to 1000
bytes, encrypt or decrypt them in place, hand them on, and stop when the byte
count reaches the file's length or at end of file.  `cryptLoop` is that loop; what
takes the chunk (`fwrite`, or `memcpy` into the result) is its parameter `sink`.

Every call that can fail has its outcome in `EncryptCalls` or `DecryptCalls`, chunk
by chunk for the ones inside the loop.  The RC4 key is a `StreamCipher.Key` whose
masks come from the password; how they come from it is the parameter `csp`.
A result `none` stands for an access outside a heap block.
-/

namespace WingPhp.Encrypt

open StreamCipher

/-- `ENCRYPT_BLOCK_SIZE`. -/
def encryptBlockSize : Nat := 8

/-- The bytes of one `fread`. -/
def dwBlockLen : Nat := 1000 - 1000 % encryptBlockSize

@[simp] theorem dwBlockLen_eq : dwBlockLen = 1000 := rfl

/-! ## Outcomes of the calls -/

/-- What `fread` or `fwrite` did, and whether `ferror` is set after it. -/
inductive Transfer where
  /-- Everything there was to move, and no error. -/
  | all
  /-- At most `moved` bytes, then an error. -/
  | failed (moved : Nat)
  deriving DecidableEq, Repr

/-- The return value of the call when there were `n` bytes to move. -/
def Transfer.count : Transfer → Nat → Nat
  | .all, n => n
  | .failed moved, n => min moved n

/-- `fread` and `CryptEncrypt`/`CryptDecrypt` in one turn of the loop. -/
structure ChunkCalls where
  fread : Transfer
  crypt : Bool
  deriving DecidableEq, Repr

/-- The calls to the cryptographic provider before the loop. -/
structure CspCalls where
  acquireContext : Bool
  /-- The second try, with `CRYPT_NEWKEYSET`. -/
  acquireContextNew : Bool
  createHash : Bool
  hashData : Bool
  deriveKey : Bool
  deriving DecidableEq, Repr

/-- `fopen_s`, `wing_malloc`, the provider, and the chunks of `WingEncryptFile`.  What `fclose` returns is not looked
at; the destination is what has been given to `fwrite`, of which a buffer may not have reached the disk (`Disk.encrypt`
in `Protected`). -/
structure EncryptCalls where
  openSource : Bool
  openDestination : Bool
  provider : CspCalls
  mallocBuffer : Bool
  chunk : Nat → ChunkCalls
  fwrite : Nat → Transfer

structure DecryptCalls where
  openSource : Bool
  mallocDestination : Bool
  provider : CspCalls
  mallocBuffer : Bool
  chunk : Nat → ChunkCalls

/-! ## The provider -/

/-- Did `GetCryptProv` return a provider. -/
def getCryptProv (c : CspCalls) : Bool := c.acquireContext || c.acquireContextNew

/-- The masks the provider derives from a password: byte `i` of the keystream, XORed. -/
def rc4Mask (csp : List UInt8 → Nat → UInt8) (password : List UInt8) (i : Nat) (b : UInt8) : UInt8 :=
  b ^^^ csp (upToNul password) i

/-- The password is hashed up to its NUL (`strlen`). -/
def genKeyByPassword (csp : List UInt8 → Nat → UInt8) (c : CspCalls) (password : List UInt8) :
    Option (Key UInt8) :=
  if c.createHash && c.hashData && c.deriveKey then some ⟨rc4Mask csp password, 0⟩ else none

/-! ## The loop -/

/-- A number stored in a `size_t` (32 bits). -/
def sizeT (x : Int) : Nat := (x % 0x100000000).toNat

/-- `_filelength`: a `long`, `-1` for a length it cannot hold. -/
def filelength (file : List UInt8) : Int :=
  if file.length < 0x80000000 then file.length else -1

/-- The `do … while( !feof )` loop from turn `k` on: `rest` is what was not read yet, `s`
the destination.  `sink` gives the destination after the chunk and whether the loop goes on. -/
def cryptLoop {σ : Type} (sink : Nat → σ → List UInt8 → Option (σ × Bool)) (size : Nat)
    (calls : Nat → ChunkCalls) (k : Nat) (key : Key UInt8) (rest : List UInt8) (readSize : Nat)
    (s : σ) : Option σ :=
  match (calls k).fread with
  | .failed _ => some s
  | .all =>
    let eof := decide (rest.length < dwBlockLen)
    if (calls k).crypt then
      let (buffer, key') := key.apply eof (rest.take dwBlockLen)
      match sink k s buffer with
      | none => none
      | some (s', false) => some s'
      | some (s', true) =>
        let readSize' := (readSize + buffer.length) % 0x100000000
        if size ≤ readSize' then some s'
        else if rest.length < dwBlockLen then some s'
        else cryptLoop sink size calls (k + 1) key' (rest.drop dwBlockLen) readSize' s'
    else some s
  termination_by rest.length
  decreasing_by
    rename_i hlen
    rw [dwBlockLen_eq] at *
    rw [List.length_drop]
    omega

/-- `fwrite` to the destination file, and `ferror` after it. -/
def fwriteSink (fwrite : Nat → Transfer) (k : Nat) (written buffer : List UInt8) :
    Option (List UInt8 × Bool) :=
  some (written ++ buffer.take ((fwrite k).count buffer.length), decide (fwrite k = .all))

/-- The block `szDestination` and how far `start` is into it. -/
structure Text where
  block : List UInt8
  start : Nat
  deriving DecidableEq, Repr

/-- `memcpy(start,pbBuffer,dwCount)` and `start += dwCount`. -/
def memcpySink (_ : Nat) (t : Text) (buffer : List UInt8) : Option (Text × Bool) :=
  if t.start + buffer.length ≤ t.block.length then
    some (⟨t.block.take t.start ++ buffer ++ t.block.drop (t.start + buffer.length),
      t.start + buffer.length⟩, true)
  else none

/-! ## The two functions -/

/-- What `WingEncryptFile` returned, and the destination file if it was opened. -/
structure Encrypted where
  ret : Bool
  destination : Option (List UInt8)
  deriving DecidableEq, Repr

def wingEncryptFile (csp : List UInt8 → Nat → UInt8) (c : EncryptCalls) (source password : List UInt8) :
    Option Encrypted :=
  if !c.openSource then some ⟨false, none⟩
  else if !c.openDestination then some ⟨false, none⟩
  else if !getCryptProv c.provider then some ⟨false, some []⟩
  else
    match genKeyByPassword csp c.provider password with
    | none => some ⟨false, some []⟩
    | some key =>
      if !c.mallocBuffer then some ⟨false, some []⟩
      else
        (cryptLoop (fwriteSink c.fwrite) (sizeT (filelength source)) c.chunk 0 key source 0 []).map
          fun written => ⟨true, some written⟩

/-- What `WingDecryptFile` returned, and `szDestination` with where `start` stopped. -/
structure Decrypted where
  ret : Bool
  szDestination : Option Text
  deriving DecidableEq, Repr

def wingDecryptFile (csp : List UInt8 → Nat → UInt8) (c : DecryptCalls) (file password : List UInt8) :
    Option Decrypted :=
  if !c.openSource then some ⟨false, none⟩
  else if !c.mallocDestination then some ⟨false, none⟩
  else if !getCryptProv c.provider then some ⟨false, none⟩
  else
    match genKeyByPassword csp c.provider password with
    | none => some ⟨false, none⟩
    | some key =>
      if !c.mallocBuffer then some ⟨false, none⟩
      else
        (cryptLoop memcpySink (sizeT (filelength file)) c.chunk 0 key file 0
          ⟨List.replicate (sizeT (filelength file + 1)) 0, 0⟩).map fun t => ⟨true, some t⟩

/-! ## The PHP functions -/

/-- What `get_cpu_id` and `get_serial_number` found. -/
structure Hardware where
  processorId : Option (List UInt8)
  serialNumber : Option (List UInt8)
  deriving DecidableEq, Repr

def Hardware.password (hw : Hardware) : Option (List UInt8) :=
  match hw.processorId, hw.serialNumber with
  | some processorId, some serialNumber => some (upToNul processorId ++ upToNul serialNumber)
  | _, _ => none

/-- The password argument, or the hardware's when it is missing or empty. -/
def encryptPassword (given : Option (List UInt8)) (hw : Hardware) : Option (List UInt8) :=
  match given with
  | none => hw.password
  | some password => if (upToNul password).length = 0 then hw.password else some password

/-- `wing_encrypt_file`. -/
def zendWingEncryptFile (csp : List UInt8 → Nat → UInt8) (hw : Hardware) (c : EncryptCalls)
    (source : List UInt8) (given : Option (List UInt8)) : Option Encrypted :=
  match encryptPassword given hw with
  | none => some ⟨false, none⟩
  | some password => wingEncryptFile csp c source password

/-- The argument of `zend_eval_string`: a pointer into a block. -/
structure RunCode where
  block : List UInt8
  offset : Nat
  deriving DecidableEq, Repr

/-- The C string `zend_eval_string` reads; `none` when it leaves the block. -/
def RunCode.text (code : RunCode) : Option (List UInt8) :=
  if 0 ∈ code.block.drop code.offset then some (upToNul (code.block.drop code.offset)) else none

structure RunFile where
  ret : Bool
  eval : Option RunCode
  deriving DecidableEq, Repr

/-- `'<'`. -/
def lessThan : UInt8 := 0x3C

/-- `wing_run_file`.  It looks at `php_code` only, not at what `WingDecryptFile` returned. -/
def zendWingRunFile (csp : List UInt8 → Nat → UInt8) (hw : Hardware) (c : DecryptCalls)
    (file : List UInt8) (given : Option (List UInt8)) : Option RunFile :=
  match encryptPassword given hw with
  | none => some ⟨false, none⟩
  | some password =>
    match wingDecryptFile csp c file password with
    | none => none
    | some ⟨_, none⟩ => some ⟨false, none⟩
    | some ⟨_, some phpCode⟩ =>
      -- `strlen( php_code )`
      if 0 ∈ phpCode.block then
        some ⟨true, some ⟨phpCode.block, if phpCode.block.head? = some lessThan then 5 else 0⟩⟩
      else none

end WingPhp.Encrypt
