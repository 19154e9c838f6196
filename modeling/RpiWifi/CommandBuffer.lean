-- The buffer of `parsecmd`, byte by byte. A pointer is a place in the buffer, and an access
-- outside of the buffer has no result. The words of a command are cut out of the buffer in
-- its own place, by NULs that `strtok_r` writes behind them.
import RpiWifi.Pieces
import RpiWifi.Control

namespace rpi_wifi.ether4330.cmdbuf

open plibc pieces

/-! ## The functions of `string.c` -/

/-- `*p`, inside of the buffer. -/
def load (buf : List Byte) (p : Nat) : Option Byte := buf[p]?

/-- `*p = c`, inside of the buffer. -/
def store (buf : List Byte) (p : Nat) (c : Byte) : Option (List Byte) :=
  if p < buf.length then some (buf.set p c) else none

/-- The loop of `strncpy`, and the NUL behind it. -/
def strncpy (pDest : List Byte) (p : Nat) : CString → Nat → Option (List Byte)
  | _, 0 => some pDest
  | [], _ + 1 => store pDest p 0
  | c :: pSrc, nMaxLen + 1 => do
    let pDest ← store pDest p c
    strncpy pDest (p + 1) pSrc nMaxLen

/-- `strchr`: the NUL is found nowhere. -/
def strchr (pString : CString) (chChar : Byte) : Option CString :=
  match pString with
  | [] => none
  | c :: rest => if c = chChar then some (c :: rest) else strchr rest chChar

/-- `while (strchr(pDelim, *pString) != 0)`. -/
def skipDelims (buf : List Byte) (pDelim : CString) (pString : Nat) : Option Nat :=
  if _h : pString < buf.length then
    if (strchr pDelim buf[pString]).isSome then skipDelims buf pDelim (pString + 1)
    else some pString
  else none
termination_by buf.length - pString

/-- `while (*pString != '\0' && strchr(pDelim, *pString) == 0)`. -/
def skipToken (buf : List Byte) (pDelim : CString) (pString : Nat) : Option Nat :=
  if _h : pString < buf.length then
    if buf[pString] ≠ 0 ∧ strchr pDelim buf[pString] = none then skipToken buf pDelim (pString + 1)
    else some pString
  else none
termination_by buf.length - pString

/-- What `strtok_r` leaves: the buffer, the token and the saved pointer. -/
structure Tokenized where
  buf : List Byte
  token : Option Nat
  savePtr : Option Nat

def strtok_r (buf : List Byte) (pString : Option Nat) (pDelim : CString) (savePtr : Option Nat) :
    Option Tokenized :=
  match pString.or savePtr with
  | none => some ⟨buf, none, savePtr⟩
  | some pString => do
    if (← load buf pString) = 0 then return ⟨buf, none, none⟩
    let pString ← skipDelims buf pDelim pString
    if (← load buf pString) = 0 then return ⟨buf, none, none⟩
    let pToken := pString
    let pString ← skipToken buf pDelim pString
    if (← load buf pString) ≠ 0 then
      let buf ← store buf pString 0
      return ⟨buf, some pToken, some (pString + 1)⟩
    return ⟨buf, some pToken, some pString⟩

/-! ## `parsecmd` -/

structure Cmdbuf where
  buf : List Byte
  argc : Nat
  f : List (Option Nat)

/-- What `kernel_allocate` gives: 200 bytes and ten slots, with anything in them. -/
structure Fresh where
  cb : Cmdbuf
  bytes : cb.buf.length = 200
  slots : cb.f.length = 10

/-- The loop of `parsecmd` from slot `i` on, of which `n` are left. -/
def parseLoop : Nat → Nat → Cmdbuf → Option Nat → Option Cmdbuf
  | 0, _, cb, _ => some cb
  | n + 1, i, cb, pSavePtr => do
    let t ← strtok_r cb.buf (if i = 0 then some 0 else none) (cstr " \t\n") pSavePtr
    let cb := { cb with buf := t.buf, f := cb.f.set i t.token }
    if t.token = none then return cb
    parseLoop n (i + 1) { cb with argc := cb.argc + 1 } t.savePtr

/-- `parsecmd` in the memory that it allocates. -/
def parsecmd (pCmdbuf : Fresh) (str : CString) : Option Cmdbuf := do
  let buf ← strncpy pCmdbuf.cb.buf 0 str 199
  let buf ← store buf 199 0
  parseLoop 10 0 { pCmdbuf.cb with buf, argc := 0 } none

end rpi_wifi.ether4330.cmdbuf
