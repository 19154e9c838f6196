-- The loading of the firmware: a file is copied to the memory of the chip in
-- pieces of 2048 bytes and read back, the settings are copied behind it, and the
-- core of the chip is let go.
import RpiWifi.Backplane
import RpiWifi.CStrings

namespace rpi_wifi.ether4330

open plibc

/-! ## Files and buffers -/

def Uploadsz : Nat := 2048

/-- A file that was linked to the kernel. It lies in the memory of 32 bits together
with a buffer to read it into. -/
structure FileInfo where
  data : List Byte
  fits : data.length + Uploadsz ≤ 2 ^ 32

def FileInfo.size (f : FileInfo) : Nat := f.data.length

/-- The bytes behind a pointer. -/
abbrev Buf := Nat → Byte

/-- The first `n` bytes of the buffer. -/
def Buf.first (b : Buf) (n : Nat) : List Byte := (List.range n).map b

/-- The buffer after the bytes were stored at its start. -/
def Buf.fill (b : Buf) (bytes : List Byte) : Buf := fun i => bytes.getD i (b i)

/-- `memcmp`: the first bytes that differ decide. -/
def memcmp : List Byte → List Byte → Int
  | a :: as, b :: bs => if a < b then -1 else if b < a then 1 else memcmp as bs
  | _, _ => 0

theorem memcmp_self (l : List Byte) : memcmp l l = 0 := by
  induction l with
  | nil => rfl
  | cons a l ih =>
    unfold memcmp
    rw [if_neg (BitVec.lt_irrefl a), if_neg (BitVec.lt_irrefl a)]
    exact ih

theorem eq_of_memcmp {as bs : List Byte} (hlen : as.length = bs.length) (h : memcmp as bs = 0) :
    as = bs := by
  induction as generalizing bs with
  | nil => exact (List.length_eq_zero_iff.mp hlen.symm).symm
  | cons a as ih =>
    cases bs with
    | nil => cases hlen
    | cons b bs =>
      unfold memcmp at h
      by_cases h1 : a < b
      · rw [if_pos h1] at h
        cases h
      · by_cases h2 : b < a
        · rw [if_neg h1, if_pos h2] at h
          cases h
        · rw [if_neg h1, if_neg h2] at h
          have hab : a = b := BitVec.le_antisymm (BitVec.not_lt.mp h2) (BitVec.not_lt.mp h1)
          rw [hab, ih (Nat.succ.inj hlen) h]

/-- The loop of `read_file_in_buffer`, with the bytes from `start_ptr` to `end_ptr`. -/
def readLoop (buffer : Buf) (size count : Nat) : List Byte → Nat × Buf
  | [] => (count, buffer)
  | b :: rest =>
    let buffer := Function.update buffer count b
    let count := count + 1
    if count = size ∨ rest = [] then (count, buffer) else readLoop buffer size count rest

def read_file_in_buffer (file_info : FileInfo) (buffer : Buf) (size : Nat) (offset : BitVec 32) :
    Nat × Buf :=
  if file_info.size ≤ offset.toNat then (0, buffer)
  else readLoop buffer size 0 (file_info.data.drop offset.toNat)

/-- The two files that the kernel has. -/
structure Files where
  bin_file : FileInfo
  text_file : FileInfo

/-- `findfirmware`: 22 characters of the name are compared. -/
def findfirmware (files : Files) (file : CString) : Option FileInfo :=
  if memcmp (cstr "brcmfmac43430-sdio.bin") (file.take 22 ++ [0]) = 0 then some files.bin_file
  else if memcmp (cstr "brcmfmac43430-sdio.txt") (file.take 22 ++ [0]) = 0 then
    some files.text_file
  else none

/-! ## Settings -/

/-- The loop of `while (n & 3) buf[n++] = 0`. -/
def zeroPad (buf : Buf) (n : Nat) : Buf × Nat :=
  if n % 4 = 0 then (buf, n) else zeroPad (Function.update buf n 0) (n + 1)
termination_by (4 - n % 4) % 4

/-- The variables of the loop of `condense`. -/
structure Condense where
  buf : Buf
  op : Nat
  lp : Nat
  skipping : Bool

def Condense.put (s : Condense) (c : Byte) : Condense :=
  { s with buf := Function.update s.buf s.op c, op := s.op + 1 }

/-- One character `c` of the input. -/
def Condense.next (s : Condense) (c : Byte) : Condense :=
  if c = 35 then { s with skipping := true }
  else if c = 0 ∨ c = 10 then
    let s := { s with skipping := false }
    if s.op ≠ s.lp then { s.put 0 with lp := s.op + 1 } else s
  else if c = 13 ∨ s.skipping then s
  else s.put c

/-- `condense`: the settings in one list, in the place of the text they are read from. -/
def condense (buf : Buf) (n : Nat) : Buf × Nat :=
  let s := (List.range n).foldl (fun s p => s.next (s.buf p)) (Condense.mk buf 0 0 false)
  let s := if !s.skipping ∧ s.op ≠ s.lp then s.put 0 else s
  let s := s.put 0
  zeroPad s.buf s.op

/-! ## The upload -/

/-- What the firmware is loaded with: the fields of `Ctlr`, and the chip. -/
structure Loader where
  chip : Chip
  chipid : BitVec 32
  chiprev : BitVec 32
  armcore : BitVec 32
  armctl : BitVec 32
  sdregs : BitVec 32
  rambase : BitVec 32
  socramsize : BitVec 32
  resetvec : List Byte
  regufile : Option CString

variable (answer : Answer)

theorem readLoop_pos (buffer : Buf) (size count : Nat) {src : List Byte} (h : src ≠ []) :
    count < (readLoop buffer size count src).1 := by
  induction src generalizing buffer count with
  | nil => exact absurd rfl h
  | cons b rest ih =>
    simp only [readLoop]
    split
    · exact Nat.lt_succ_self count
    · rename_i hgo
      exact Nat.lt_of_succ_lt (ih _ _ fun h0 => hgo (.inr h0))

/-- A read gives no byte exactly at the end of the file. -/
theorem read_eq_zero_iff (f : FileInfo) (buffer : Buf) (size : Nat) (off : BitVec 32) :
    (read_file_in_buffer f buffer size off).1 = 0 ↔ f.size ≤ off.toNat := by
  unfold read_file_in_buffer
  split
  · simp [*]
  · rename_i h
    have hne : f.data.drop off.toNat ≠ [] := by
      intro h0
      have := congrArg List.length h0
      rw [List.length_drop, List.length_nil] at this
      unfold FileInfo.size at h
      omega
    have := readLoop_pos buffer size 0 hne
    omega

theorem readLoop_le (buffer : Buf) {size count : Nat} (src : List Byte) (h : count < size) :
    (readLoop buffer size count src).1 ≤ size := by
  induction src generalizing buffer count with
  | nil => exact h.le
  | cons b rest ih =>
    simp only [readLoop]
    split
    · exact h
    · rename_i hgo
      have hne : count + 1 ≠ size := fun heq => hgo (.inl heq)
      exact ih _ (by omega)

theorem read_le (f : FileInfo) (buffer : Buf) (off : BitVec 32) :
    (read_file_in_buffer f buffer Uploadsz off).1 ≤ Uploadsz := by
  unfold read_file_in_buffer
  split
  · exact Nat.zero_le _
  · exact readLoop_le _ _ (by decide)

theorem zeroPad_snd (buf : Buf) (n : Nat) : (zeroPad buf n).2 = (n + 3) / 4 * 4 := by
  induction buf, n using zeroPad.induct with
  | case1 buf n h =>
    unfold zeroPad
    rw [if_pos h]
    dsimp only
    omega
  | case2 buf n h ih =>
    unfold zeroPad
    rw [if_neg h, ih]
    omega

/-- The offset after a piece that was read and padded lies behind the one before it. -/
theorem off_lt {f : FileInfo} {buffer : Buf} {off : BitVec 32}
    (h : (read_file_in_buffer f buffer Uploadsz off).1 ≠ 0) (buf : Buf) :
    off.toNat < (off + BitVec.ofNat 32
      (zeroPad buf (read_file_in_buffer f buffer Uploadsz off).1).2).toNat := by
  have hsize : off.toNat < f.size := by
    rw [Ne, read_eq_zero_iff] at h
    exact Nat.lt_of_not_le h
  have hle := read_le f buffer off
  have hfits := f.fits
  unfold FileInfo.size at hsize
  unfold Uploadsz at *
  rw [BitVec.toNat_add, BitVec.toNat_ofNat, zeroPad_snd]
  omega

/-- The variables of the loops of `upload`. -/
structure Upload where
  chip : Chip
  buf : Buf
  resetvec : List Byte
  n : Nat
  off : BitVec 32

/-- A piece of `r.1` bytes is padded and written. -/
def transferPiece (ctl : Loader) (s : Upload) (r : Nat × Buf) : Upload :=
  let p := zeroPad r.2 r.1
  { chip := (sbmem answer s.chip true (p.1.first p.2) (ctl.rambase + s.off)).1
    buf := p.1
    resetvec := if s.off = 0 then r.2.first 4 else s.resetvec
    n := p.2
    off := s.off + BitVec.ofNat 32 p.2 }

/-- The first loop of `upload`: the pieces of the file are written. The settings are one
piece, which goes to the end of the memory. -/
def transferLoop (f : FileInfo) (ctl : Loader) (isconfig : Bool) (s : Upload) : Upload :=
  let r := read_file_in_buffer f s.buf Uploadsz s.off
  if _h : r.1 = 0 then { s with n := 0 }
  else if isconfig then
    let c := condense r.2 r.1
    let off := ctl.socramsize - BitVec.ofNat 32 c.2 - 4
    let p := zeroPad c.1 c.2
    { s with
      chip := (sbmem answer s.chip true (p.1.first p.2) (ctl.rambase + off)).1
      buf := p.1
      n := p.2
      off }
  else transferLoop f ctl isconfig (transferPiece answer ctl s r)
termination_by f.size - s.off.toNat
decreasing_by
  have hsize := (read_eq_zero_iff f s.buf Uploadsz s.off).not.mp _h
  have hlt := off_lt _h (read_file_in_buffer f s.buf Uploadsz s.off).2
  dsimp only [transferPiece]
  omega

/-- A piece of `r.1` bytes is padded and read back into `cbuf`. -/
def comparePiece (ctl : Loader) (s : Upload) (cbuf : Buf) (r : Nat × Buf) : Upload × List Byte :=
  let p := zeroPad r.2 r.1
  let q := sbmem answer s.chip false (cbuf.first p.2) (ctl.rambase + s.off)
  ({ s with chip := q.1, buf := p.1, n := p.2 }, q.2)

/-- The second loop of `upload`: the pieces are read back and compared. It ends early
with the first piece that differs. -/
def compareLoop (f : FileInfo) (ctl : Loader) (s : Upload) (cbuf : Buf) : Upload × Bool :=
  let r := read_file_in_buffer f s.buf Uploadsz s.off
  if _h : r.1 = 0 then ({ s with n := 0 }, true)
  else
    let q := comparePiece answer ctl s cbuf r
    if memcmp (q.1.buf.first q.1.n) q.2 ≠ 0 then (q.1, false)
    else
      compareLoop f ctl { q.1 with off := s.off + BitVec.ofNat 32 q.1.n } (cbuf.fill q.2)
termination_by f.size - s.off.toNat
decreasing_by
  have hsize := (read_eq_zero_iff f s.buf Uploadsz s.off).not.mp _h
  have hlt := off_lt _h (read_file_in_buffer f s.buf Uploadsz s.off).2
  dsimp only [comparePiece]
  omega

/-- The settings are in one piece, which is still in the buffer. -/
def compareConfig (ctl : Loader) (s : Upload) (cbuf : Buf) : Upload × Bool :=
  let q := sbmem answer s.chip false (cbuf.first s.n) (ctl.rambase + s.off)
  ({ s with chip := q.1 }, memcmp (s.buf.first s.n) q.2 = 0)

/-- `upload`, with what the buffers hold when they are allocated, over a bus that delivers.
There is no first buffer when the heap is full; the second one is not tested. -/
def upload (files : Files) (buf : Option Buf) (cbuf : Buf) (ctl : Loader) (file : CString)
    (isconfig : Bool) : Loader × Int :=
  match findfirmware files file, buf with
  | none, _ => (ctl, -1)
  | some _, none => (ctl, -1)
  | some f, some buf =>
    let t := transferLoop answer f ctl isconfig ⟨ctl.chip, buf, ctl.resetvec, 0, 0⟩
    let v := if isconfig then compareConfig answer ctl t cbuf
      else compareLoop answer f ctl { t with off := 0 } cbuf
    ({ ctl with chip := v.1.chip, resetvec := v.1.resetvec }, if v.2 then v.1.n else -1)

/-! ## The loading -/

/-- An entry of the table of chips. -/
structure Firmware where
  chipid : BitVec 32
  chiprev : BitVec 32
  fwfile : String
  cfgfile : String
  regufile : Option String

def firmware : List Firmware :=
  [⟨0x4330, 3, "fw_bcm40183b1.bin", "bcmdhd.cal.40183.26MHz", none⟩,
    ⟨0x4330, 4, "fw_bcm40183b2.bin", "bcmdhd.cal.40183.26MHz", none⟩,
    ⟨43362, 0, "fw_bcm40181a0.bin", "bcmdhd.cal.40181", none⟩,
    ⟨43362, 1, "fw_bcm40181a2.bin", "bcmdhd.cal.40181", none⟩,
    ⟨43430, 1, "brcmfmac43430-sdio.bin", "brcmfmac43430-sdio.txt", none⟩,
    ⟨0x4345, 6, "brcmfmac43455-sdio.bin", "brcmfmac43455-sdio.txt",
      some "brcmfmac43455-sdio.clm_blob"⟩]

def ARMcr4 : BitVec 32 := 0x83E

def Cr4Cpuhalt : BitVec 32 := 0x20

def Intstatus : BitVec 32 := 0x20

/-- What `fwload` does: an entry of the table is read, a file was uploaded with
its result, the length token of the settings is written, and the core is reset. -/
inductive Deed where
  | entry (i : Nat)
  | uploaded (isconfig : Bool) (result : Int)
  | token (n : BitVec 32)
  | sbreset (regs : BitVec 32) (pre : BitVec 32)
  deriving DecidableEq

/-- The search through the table from entry `i` on, with the entries that are read.
Behind the last one the search goes on in whatever memory follows. -/
def searchTable (ctl : Loader) : Nat → List Firmware → List Deed × Option Firmware
  | i, [] => ([.entry i], none)
  | i, e :: rest =>
    if e.chipid ≠ ctl.chipid ∨ e.chiprev ≠ ctl.chiprev then
      let r := searchTable ctl (i + 1) rest
      (.entry i :: r.1, r.2)
    else ([.entry i], some e)

/-- The token: the number of words, and its complement in the upper half. -/
def lengthToken (n : Int) : BitVec 32 :=
  let n := BitVec.ofInt 32 n / 4
  (n &&& 0xFFFF) ||| (~~~ n <<< 16)

/-- Four bytes are written to the end of the chip's memory. -/
def writeToken (ctl : Loader) (n : BitVec 32) : Chip × List Byte :=
  sbmem answer ctl.chip true (put4 n) (ctl.rambase + ctl.socramsize - 4)

/-- What is done before the files: the end of the memory is cleared. -/
def prepare (ctl : Loader) (e : Firmware) : Loader :=
  let ctl := { ctl with regufile := e.regufile.map cstr }
  { ctl with chip := (writeToken answer ctl 0).1 }

/-- The interrupts of a Cortex-R4 are cleared, and its reset vector is put at address 0. -/
def startCr4 (ctl : Loader) : Chip :=
  let chip := sbwindow answer ctl.chip ctl.sdregs
  let chip := cfgwritel answer chip Fn1 (ctl.sdregs + Intstatus) 0xFFFFFFFF
  if ctl.resetvec.any (· != 0) then (sbmem answer chip true ctl.resetvec 0).1 else chip

/-- The files of the entry are loaded with any `upload`, and the core is let go. The
clock of the chip is ready, and the registers of the core are not modelled. -/
def loadEntry (up : Loader → CString → Bool → Loader × Int) (ctl : Loader) (e : Firmware) :
    Loader × List Deed :=
  let fw := up (prepare answer ctl e) (cstr e.fwfile) false
  let cfg := up fw.1 (cstr e.cfgfile) true
  let n := lengthToken cfg.2
  let ctl := { cfg.1 with chip := (writeToken answer cfg.1 n).1 }
  let isCr4 := ctl.armcore == ARMcr4
  let chip := if isCr4 then startCr4 answer ctl else ctl.chip
  ({ ctl with chip }, [.uploaded false fw.2, .uploaded true cfg.2, .token n,
    .sbreset ctl.armctl (if isCr4 then Cr4Cpuhalt else 0)])

/-- `fwload`. Nothing is known of what the code does behind the end of the table. -/
def fwload (up : Loader → CString → Bool → Loader × Int) (ctl : Loader) : Loader × List Deed :=
  let r := searchTable ctl 0 firmware
  match r.2 with
  | none => (ctl, r.1)
  | some e =>
    let q := loadEntry answer up ctl e
    (q.1, r.1 ++ q.2)

end rpi_wifi.ether4330
