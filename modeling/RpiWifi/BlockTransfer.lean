-- The transfer of blocks between a buffer and an SD card. `sdTransferBlocks` moves words
-- through the data register: four bytes of the buffer for each word when the buffer is
-- aligned, and otherwise a word at every byte. The flags that a wait sees and the words
-- of the register come from outside.
import RpiWifi.WriteLogs

namespace rpi_wifi.block_transfer

open write_logs

abbrev Byte := BitVec 8

abbrev Word := BitVec 32

/-! ## The waits -/

/-- The error codes of the driver that a transfer gives; a command also gives the error bits
of its response. -/
def SD_OK : Word := 0

def SD_ERROR : Word := 1

def SD_TIMEOUT : Word := 2

def SD_BUSY : Word := 3

def SD_NO_RESP : Word := 5

def INT_CMD_TIMEOUT : Word := 0x00010000

def INT_DATA_TIMEOUT : Word := 0x00100000

def INT_ERROR_MASK : Word :=
  0x00020000 ||| 0x00040000 ||| 0x00080000 ||| 0x00100000 ||| 0x00200000 ||| 0x00400000 |||
    0x00008000 ||| 0x01000000

/-- What a wait ends with: the microseconds that it took, and the interrupt flags then. -/
structure Wait where
  td : Nat
  ival : Word

def sdWaitForInterrupt (w : Wait) : Word :=
  if w.td ≥ 1000000 ∨ w.ival &&& INT_CMD_TIMEOUT ≠ 0 ∨ w.ival &&& INT_DATA_TIMEOUT ≠ 0 then
    SD_TIMEOUT
  else if w.ival &&& INT_ERROR_MASK ≠ 0 then SD_ERROR
  else SD_OK

def sdWaitForCommand (w : Wait) : Word :=
  if w.td ≥ 1000000 ∨ w.ival &&& INT_ERROR_MASK ≠ 0 then SD_BUSY else SD_OK

def sdWaitForData (w : Wait) : Word :=
  if w.td ≥ 500000 ∨ w.ival &&& INT_ERROR_MASK ≠ 0 then SD_BUSY else SD_OK

/-! ## The commands -/

/-- The commands of a transfer. No one is an application command, and the response of
each holds the status of the card. -/
inductive Command where
  | STOP_TRANS
  | READ_SINGLE
  | READ_MULTI
  | SET_BLOCKCNT
  | WRITE_SINGLE
  | WRITE_MULTI
  deriving DecidableEq

/-- How a command goes: the wait before it, the wait for its end, and its response. -/
structure Reply where
  free : Wait
  done : Wait
  resp0 : Word

def R1_ERRORS_MASK : Word := 0xfff9c004

def sdSendCommandP (r : Reply) : Word :=
  if sdWaitForCommand r.free ≠ SD_OK then SD_BUSY
  else if sdWaitForInterrupt r.done ≠ SD_OK then sdWaitForInterrupt r.done
  else r.resp0 &&& R1_ERRORS_MASK

/-- What the controller and the card answer in a transfer: no command is sent twice, block
`i` is ready after `ready i`, and the data register gives the words of `data` in turn. -/
structure Answers where
  free : Wait
  reply : Command → Reply
  ready : Nat → Wait
  dataDone : Wait
  data : Nat → Word

/-! ## The words -/

/-- Byte `k` of a word, as the wider store puts it. -/
def byteOf (w : Word) (k : Nat) : Byte := w.extractLsb' (8 * k) 8

/-- The word at an address, as the wider load takes it. -/
def wordAt (mem : Nat → Byte) (a : Nat) : Word :=
  mem (a + 3) ++ mem (a + 2) ++ mem (a + 1) ++ mem a

/-- What a transfer did so far: the bytes it stored, the words it sent, the number of words it
read, and the commands with their arguments. -/
structure Moved where
  stores : List (Nat × Byte)
  sent : List Word
  reads : Nat
  commands : List (Command × Word)

/-- One turn of the loop for an unaligned buffer, at the address `a`. -/
def moveBytes (ans : Answers) (mem : Nat → Byte) (write : Bool) (m : Moved) (a : Nat) : Moved :=
  if write then
    let data := (mem a).setWidth 32
    let data := data ||| (mem (a + 1)).setWidth 32 <<< 8
    let data := data ||| (mem (a + 2)).setWidth 32 <<< 16
    let data := data ||| (mem (a + 3)).setWidth 32 <<< 24
    { m with sent := m.sent ++ [data] }
  else
    let data := ans.data m.reads
    { m with
      stores := m.stores ++
        [(a, (data &&& 0xff).setWidth 8), (a + 1, (data >>> 8 &&& 0xff).setWidth 8),
          (a + 2, (data >>> 16 &&& 0xff).setWidth 8), (a + 3, (data >>> 24 &&& 0xff).setWidth 8)]
      reads := m.reads + 1 }

/-- One turn of the loop for an aligned buffer. -/
def moveWord (ans : Answers) (mem : Nat → Byte) (write : Bool) (m : Moved) (a : Nat) : Moved :=
  if write then { m with sent := m.sent ++ [wordAt mem a] }
  else
    let data := ans.data m.reads
    { m with
      stores := m.stores ++ [(a, byteOf data 0), (a + 1, byteOf data 1), (a + 2, byteOf data 2),
        (a + 3, byteOf data 3)]
      reads := m.reads + 1 }

/-- The transfer of one block. -/
def moveBlock (ans : Answers) (mem : Nat → Byte) (write : Bool) (m : Moved) (buffer : Nat) :
    Moved :=
  if buffer &&& 3 ≠ 0 then
    (List.range 512).foldl (fun m i => moveBytes ans mem write m (buffer + i)) m
  else
    (List.range 128).foldl (fun m i => moveWord ans mem write m (buffer + 4 * i)) m

/-- The loop over the blocks: `blocks` of them are left, and `blocksDone` are done. It ends
with all of them done, so the check of `blocksDone` after it never fails. -/
def moveBlocks (ans : Answers) (mem : Nat → Byte) (write : Bool) :
    Nat → Nat → Nat → Moved → Word × Moved
  | 0, _, _, m => (SD_OK, m)
  | blocks + 1, blocksDone, buffer, m =>
    if sdWaitForInterrupt (ans.ready blocksDone) ≠ SD_OK then
      (sdWaitForInterrupt (ans.ready blocksDone), m)
    else moveBlocks ans mem write blocks (blocksDone + 1) (buffer + 512)
      (moveBlock ans mem write m buffer)

/-! ## The transfer -/

inductive SDCARD_TYPE where
  | SD_TYPE_UNKNOWN
  | SD_TYPE_MMC
  | SD_TYPE_1
  | SD_TYPE_2_SC
  | SD_TYPE_2_HC
  deriving DecidableEq

/-- The fields of `sdCard` that a transfer reads. -/
structure Card where
  type : SDCARD_TYPE
  CMD_SUPPORT : BitVec 2

def CMD_SUPP_SET_BLKCNT : BitVec 2 := 2

/-- A command is sent and answered. -/
def Moved.command (m : Moved) (c : Command) (arg : Word) : Moved :=
  { m with commands := m.commands ++ [(c, arg)] }

def transferCmd (write : Bool) (numBlocks : Word) : Command :=
  if write then (if numBlocks = 1 then .WRITE_SINGLE else .WRITE_MULTI)
  else (if numBlocks = 1 then .READ_SINGLE else .READ_MULTI)

/-- The part of `sdTransferBlocks` after the loop. -/
def endTransfer (card : Card) (ans : Answers) (numBlocks : Word) (write : Bool) (m : Moved) :
    Word × Moved :=
  if write ∧ sdWaitForInterrupt ans.dataDone ≠ SD_OK then (sdWaitForInterrupt ans.dataDone, m)
  else if numBlocks > 1 ∧ card.CMD_SUPPORT ≠ CMD_SUPP_SET_BLKCNT then
    (sdSendCommandP (ans.reply .STOP_TRANS), m.command .STOP_TRANS 0)
  else (SD_OK, m)

/-- `sdTransferBlocks` with the loop and what is after it, from the transfer command on. -/
def startTransfer (card : Card) (ans : Answers) (mem : Nat → Byte) (startBlock numBlocks : Word)
    (buffer : Nat) (write : Bool) (m : Moved) : Word × Moved :=
  let blockAddress := if card.type = .SD_TYPE_2_SC then startBlock <<< 9 else startBlock
  let cmd := transferCmd write numBlocks
  let m := m.command cmd blockAddress
  if sdSendCommandP (ans.reply cmd) ≠ SD_OK then (sdSendCommandP (ans.reply cmd), m)
  else
    let moved := moveBlocks ans mem write numBlocks.toNat 0 buffer m
    if moved.1 ≠ SD_OK then moved else endTransfer card ans numBlocks write moved.2

def sdTransferBlocks (card : Card) (ans : Answers) (mem : Nat → Byte)
    (startBlock numBlocks : Word) (buffer : Nat) (write : Bool) : Word × Moved :=
  let m : Moved := { stores := [], sent := [], reads := 0, commands := [] }
  if card.type = .SD_TYPE_UNKNOWN then (SD_NO_RESP, m)
  else if sdWaitForData ans.free ≠ SD_OK then (SD_TIMEOUT, m)
  else if numBlocks > 1 ∧ card.CMD_SUPPORT = CMD_SUPP_SET_BLKCNT then
    let m := m.command .SET_BLOCKCNT numBlocks
    if sdSendCommandP (ans.reply .SET_BLOCKCNT) ≠ SD_OK then
      (sdSendCommandP (ans.reply .SET_BLOCKCNT), m)
    else startTransfer card ans mem startBlock numBlocks buffer write m
  else startTransfer card ans mem startBlock numBlocks buffer write m

/-! ## One word -/

theorem moveBytes_eq_moveWord (ans : Answers) (mem : Nat → Byte) (write : Bool) (m : Moved)
    (a : Nat) : moveBytes ans mem write m a = moveWord ans mem write m a := by
  cases write with
  | true =>
    have hword : (mem a).setWidth 32 ||| (mem (a + 1)).setWidth 32 <<< 8 |||
        (mem (a + 2)).setWidth 32 <<< 16 ||| (mem (a + 3)).setWidth 32 <<< 24 = wordAt mem a := by
      apply BitVec.eq_of_getLsbD_eq
      intro i hi
      simp only [wordAt, BitVec.getLsbD_or, BitVec.getLsbD_shiftLeft, BitVec.getLsbD_setWidth,
        BitVec.getLsbD_append]
      split_ifs <;> grind
    simp [moveBytes, moveWord, hword]
  | false =>
    have hbyte (w : Word) (k : Nat) : (w >>> k &&& 0xff).setWidth 8 = w.extractLsb' k 8 := by
      have hones : (0xff : Word).setWidth 8 = BitVec.allOnes 8 := rfl
      rw [BitVec.setWidth_and, hones, BitVec.and_allOnes]
      ext i hi
      simp
    have hlow (w : Word) : (w &&& 0xff).setWidth 8 = w.extractLsb' 0 8 := by
      have h := hbyte w 0
      simpa using h
    simp only [moveBytes, moveWord, byteOf, hbyte, hlow]
    rfl

/-- The stores of word after word at the addresses `as`, from word `k` of the register on. -/
def storesOf (ans : Answers) : Nat → List Nat → List (Nat × Byte)
  | _, [] => []
  | k, a :: as =>
    [(a, byteOf (ans.data k) 0), (a + 1, byteOf (ans.data k) 1), (a + 2, byteOf (ans.data k) 2),
      (a + 3, byteOf (ans.data k) 3)] ++ storesOf ans (k + 1) as

theorem storesOf_append (ans : Answers) (k : Nat) (as bs : List Nat) :
    storesOf ans k (as ++ bs) = storesOf ans k as ++ storesOf ans (k + as.length) bs := by
  induction as generalizing k with
  | nil => rfl
  | cons a as ih =>
    have hk : k + (as.length + 1) = k + 1 + as.length := by omega
    simp only [List.cons_append, storesOf, ih, List.length_cons, hk, List.append_assoc]

theorem mem_storesOf {ans : Answers} {k : Nat} {as : List Nat} {w : Nat × Byte}
    (h : w ∈ storesOf ans k as) : ∃ a ∈ as, a ≤ w.1 ∧ w.1 < a + 4 := by
  induction as generalizing k with
  | nil => cases h
  | cons a as ih =>
    rcases List.mem_append.mp h with h | h
    · refine ⟨a, List.mem_cons_self, ?_⟩
      simp only [List.mem_cons, List.not_mem_nil, or_false] at h
      rcases h with rfl | rfl | rfl | rfl <;> exact ⟨by omega, by omega⟩
    · obtain ⟨b, hb, hle, hlt⟩ := ih h
      exact ⟨b, List.mem_cons_of_mem _ hb, hle, hlt⟩

/-- A word that is stored at `a` ends at `a + 3`. -/
theorem exists_store (ans : Answers) (k : Nat) {as : List Nat} {a : Nat} (h : a ∈ as) :
    ∃ w ∈ storesOf ans k as, w.1 = a + 3 := by
  induction as generalizing k with
  | nil => cases h
  | cons b as ih =>
    rcases List.mem_cons.mp h with rfl | h
    · exact ⟨(a + 3, byteOf (ans.data k) 3), by simp [storesOf], rfl⟩
    · obtain ⟨w, hw, hout⟩ := ih (k + 1) h
      exact ⟨w, List.mem_append_right _ hw, hout⟩

/-- Words read or sent at the addresses `as` one after another. -/
def moveWords (ans : Answers) (mem : Nat → Byte) (write : Bool) (m : Moved) (as : List Nat) :
    Moved :=
  as.foldl (moveWord ans mem write) m

theorem moveWords_stores (ans : Answers) (mem : Nat → Byte) (write : Bool) (m : Moved)
    (as : List Nat) :
    (moveWords ans mem write m as).stores =
      m.stores ++ if write then [] else storesOf ans m.reads as := by
  induction as generalizing m with
  | nil => cases write <;> simp [moveWords, storesOf]
  | cons a as ih =>
    rw [moveWords, List.foldl_cons, ← moveWords, ih]
    cases write <;> simp [moveWord, storesOf]

theorem moveWords_sent (ans : Answers) (mem : Nat → Byte) (write : Bool) (m : Moved)
    (as : List Nat) :
    (moveWords ans mem write m as).sent =
      m.sent ++ if write then as.map (wordAt mem) else [] := by
  induction as generalizing m with
  | nil => cases write <;> simp [moveWords]
  | cons a as ih =>
    rw [moveWords, List.foldl_cons, ← moveWords, ih]
    cases write <;> simp [moveWord]

/-! ## The addresses of a transfer -/

/-- Where the words of a block stand in the buffer. -/
def blockAddresses (buffer : Nat) : List Nat :=
  if buffer % 4 = 0 then (List.range 128).map fun i => buffer + 4 * i
  else (List.range 512).map fun i => buffer + i

def addresses : Nat → Nat → List Nat
  | 0, _ => []
  | blocks + 1, buffer => blockAddresses buffer ++ addresses blocks (buffer + 512)

theorem moveBlock_eq (ans : Answers) (mem : Nat → Byte) (write : Bool) (m : Moved)
    (buffer : Nat) :
    moveBlock ans mem write m buffer = moveWords ans mem write m (blockAddresses buffer) := by
  have hand : buffer &&& 3 = buffer % 4 := Nat.and_two_pow_sub_one_eq_mod buffer 2
  unfold moveBlock blockAddresses moveWords
  rw [hand]
  by_cases h : buffer % 4 = 0
  · rw [if_neg (not_not.mpr h), if_pos h, List.foldl_map]
  · rw [if_pos h, if_neg h, List.foldl_map]
    simp only [moveBytes_eq_moveWord]

/-- The blocks are moved when each is ready in its turn. -/
theorem moveBlocks_ok {ans : Answers} (mem : Nat → Byte) (write : Bool) {blocks k : Nat}
    (buffer : Nat) (m : Moved)
    (h : ∀ i < blocks, sdWaitForInterrupt (ans.ready (k + i)) = SD_OK) :
    moveBlocks ans mem write blocks k buffer m =
      (SD_OK, moveWords ans mem write m (addresses blocks buffer)) := by
  induction blocks generalizing k buffer m with
  | zero => rfl
  | succ blocks ih =>
    have hrest : ∀ i < blocks, sdWaitForInterrupt (ans.ready (k + 1 + i)) = SD_OK := by
      intro i hi
      have hk : k + 1 + i = k + (i + 1) := by omega
      rw [hk]
      exact h (i + 1) (by omega)
    have hfirst : ¬ sdWaitForInterrupt (ans.ready k) ≠ SD_OK := not_not.mpr (h 0 (by omega))
    rw [moveBlocks, if_neg hfirst, ih _ _ hrest, moveBlock_eq]
    simp only [addresses, moveWords, List.foldl_append]

theorem ready_of_moveBlocks {ans : Answers} {mem : Nat → Byte} {write : Bool} {blocks k : Nat}
    {buffer : Nat} {m : Moved} (h : (moveBlocks ans mem write blocks k buffer m).1 = SD_OK) :
    ∀ i < blocks, sdWaitForInterrupt (ans.ready (k + i)) = SD_OK := by
  induction blocks generalizing k buffer m with
  | zero => simp
  | succ blocks ih =>
    rw [moveBlocks] at h
    split_ifs at h with hready
    · exact absurd h hready
    · intro i hi
      cases i with
      | zero => exact not_not.mp hready
      | succ i =>
        have hk : k + (i + 1) = k + 1 + i := by omega
        rw [hk]
        exact ih h i (by omega)

/-! ## The addresses of an aligned transfer, and of any other -/

theorem addresses_aligned {buffer : Nat} (h : buffer % 4 = 0) (blocks : Nat) :
    addresses blocks buffer = (List.range (128 * blocks)).map fun i => buffer + 4 * i := by
  induction blocks generalizing buffer with
  | zero => rfl
  | succ blocks ih =>
    have hnext : (buffer + 512) % 4 = 0 := by omega
    have hsplit : 128 * (blocks + 1) = 128 + 128 * blocks := by omega
    have hshift : ((fun i => buffer + 4 * i) ∘ fun i => 128 + i) =
        fun i => buffer + 512 + 4 * i := by
      funext i
      simp only [Function.comp_apply]
      omega
    rw [addresses, blockAddresses, if_pos h, ih hnext, hsplit, List.range_add, List.map_append,
      List.map_map, hshift]

theorem addresses_unaligned_length {buffer : Nat} (h : buffer % 4 ≠ 0) (blocks : Nat) :
    (addresses blocks buffer).length = 512 * blocks := by
  induction blocks generalizing buffer with
  | zero => rfl
  | succ blocks ih =>
    have hnext : (buffer + 512) % 4 ≠ 0 := by omega
    simp only [addresses, blockAddresses, if_neg h, List.length_append, List.length_map,
      List.length_range, ih hnext]
    omega

/-- The last word of an unaligned transfer starts at the last byte of the buffer. -/
theorem last_mem_addresses {buffer : Nat} (h : buffer % 4 ≠ 0) (blocks : Nat) :
    buffer + 512 * blocks + 511 ∈ addresses (blocks + 1) buffer := by
  induction blocks generalizing buffer with
  | zero =>
    have hin : 511 ∈ List.range 512 := List.mem_range.mpr (by omega)
    rw [addresses, blockAddresses, if_neg h]
    exact List.mem_append_left _ (List.mem_map.mpr ⟨511, hin, rfl⟩)
  | succ blocks ih =>
    have hnext : (buffer + 512) % 4 ≠ 0 := by omega
    have hlast : buffer + 512 * (blocks + 1) + 511 = buffer + 512 + 512 * blocks + 511 := by omega
    rw [addresses, hlast]
    exact List.mem_append_right _ (ih hnext)

theorem replay_word (ans : Answers) (mem : Nat → Byte) (n a : Nat) {k : Nat} (hk : k < 4) :
    replay mem (storesOf ans n [a]) (a + k) = byteOf (ans.data n) k := by
  interval_cases k <;> simp [storesOf, replay]

/-- The bytes that aligned stores leave: those of the words, in their order. -/
theorem replay_storesOf (ans : Answers) (mem : Nat → Byte) (buffer words : Nat) {j : Nat}
    (hj : j < 4 * words) :
    replay mem (storesOf ans 0 ((List.range words).map fun i => buffer + 4 * i)) (buffer + j) =
      byteOf (ans.data (j / 4)) (j % 4) := by
  induction words with
  | zero => omega
  | succ words ih =>
    rw [List.range_succ, List.map_append, storesOf_append, replay_append]
    by_cases hlast : j < 4 * words
    · rw [replay_other, ih hlast]
      intro w hw
      obtain ⟨a, ha, hle, -⟩ := mem_storesOf hw
      rw [List.map_singleton, List.mem_singleton] at ha
      omega
    · obtain ⟨k, hk, rfl⟩ : ∃ k, k < 4 ∧ j = 4 * words + k := ⟨j - 4 * words, by omega, by omega⟩
      have hdiv : (4 * words + k) / 4 = words := by omega
      have hmod : (4 * words + k) % 4 = k := by omega
      have hlen : 0 + ((List.range words).map fun i => buffer + 4 * i).length = words := by simp
      rw [hdiv, hmod, hlen, ← Nat.add_assoc]
      exact replay_word ans _ words _ hk

/-! ## What a transfer moves -/

variable {card : Card} {ans : Answers} {mem : Nat → Byte} {startBlock numBlocks : Word}
  {buffer : Nat} {write : Bool}

theorem endTransfer_moved (card : Card) (ans : Answers) (numBlocks : Word) (write : Bool)
    (m : Moved) :
    (endTransfer card ans numBlocks write m).2.stores = m.stores ∧
      (endTransfer card ans numBlocks write m).2.sent = m.sent := by
  unfold endTransfer
  split_ifs <;> exact ⟨rfl, rfl⟩

/-- A transfer that begins with `m` ends well, and moves the words of all blocks. -/
theorem startTransfer_moved {m : Moved}
    (h : (startTransfer card ans mem startBlock numBlocks buffer write m).1 = SD_OK)
    (mem' : Nat → Byte) (buffer' : Nat) :
    let as := addresses numBlocks.toNat buffer'
    let r := startTransfer card ans mem' startBlock numBlocks buffer' write m
    r.2.stores = m.stores ++ (if write then [] else storesOf ans m.reads as) ∧
      r.2.sent = m.sent ++ if write then as.map (wordAt mem') else [] := by
  dsimp only [startTransfer] at h ⊢
  set c := m.command (transferCmd write numBlocks)
    (if card.type = .SD_TYPE_2_SC then startBlock <<< 9 else startBlock) with hc
  by_cases hcmd : sdSendCommandP (ans.reply (transferCmd write numBlocks)) ≠ SD_OK
  · rw [if_pos hcmd] at h
    exact absurd h hcmd
  · rw [if_neg hcmd] at h ⊢
    have hready : ∀ i < numBlocks.toNat, sdWaitForInterrupt (ans.ready (0 + i)) = SD_OK := by
      by_cases hmoved : (moveBlocks ans mem write numBlocks.toNat 0 buffer c).1 ≠ SD_OK
      · rw [if_pos hmoved] at h
        exact absurd h hmoved
      · exact ready_of_moveBlocks (not_not.mp hmoved)
    rw [moveBlocks_ok mem' write buffer' c hready, if_neg (not_not.mpr rfl)]
    obtain ⟨hstores, hsent⟩ := endTransfer_moved card ans numBlocks write
      (moveWords ans mem' write c (addresses numBlocks.toNat buffer'))
    exact ⟨hstores.trans (moveWords_stores ..), hsent.trans (moveWords_sent ..)⟩

theorem sdTransferBlocks_moved
    (h : (sdTransferBlocks card ans mem startBlock numBlocks buffer write).1 = SD_OK)
    (mem' : Nat → Byte) (buffer' : Nat) :
    let as := addresses numBlocks.toNat buffer'
    let r := sdTransferBlocks card ans mem' startBlock numBlocks buffer' write
    r.2.stores = (if write then [] else storesOf ans 0 as) ∧
      r.2.sent = if write then as.map (wordAt mem') else [] := by
  dsimp only [sdTransferBlocks] at h ⊢
  split_ifs at h with htype hfree hmany hset
  · exact absurd h (by decide)
  · exact absurd h (by decide)
  · exact absurd h hset
  · rw [if_neg htype, if_neg hfree, if_pos hmany, if_neg hset]
    exact startTransfer_moved h mem' buffer'
  · rw [if_neg htype, if_neg hfree, if_neg hmany]
    exact startTransfer_moved h mem' buffer'

/-! ## Transfers at any address -/

/-- A transfer does what it would do at an aligned address. A read leaves the words of the data
register in the bytes of the buffer and stores no byte elsewhere; a write sends the words of
the buffer. -/
def AsAligned (card : Card) (ans : Answers) (mem : Nat → Byte) (startBlock numBlocks : Word)
    (buffer : Nat) (write : Bool) : Prop :=
  let size := 512 * numBlocks.toNat
  let m := (sdTransferBlocks card ans mem startBlock numBlocks buffer write).2
  let aligned := fun mem' buffer' =>
    (sdTransferBlocks card ans mem' startBlock numBlocks buffer' write).2
  if write then
    m.sent = (List.range (128 * numBlocks.toNat)).map (fun i => wordAt mem (buffer + 4 * i)) ∧
      ∀ mem' buffer', buffer' % 4 = 0 → (∀ j < size, mem' (buffer' + j) = mem (buffer + j)) →
        m.sent = (aligned mem' buffer').sent
  else
    (∀ j < size, replay mem m.stores (buffer + j) = byteOf (ans.data (j / 4)) (j % 4)) ∧
      (∀ w ∈ m.stores, buffer ≤ w.1 ∧ w.1 < buffer + size) ∧
      ∀ mem' buffer', buffer' % 4 = 0 → ∀ j < size,
        replay mem m.stores (buffer + j) =
          replay mem' (aligned mem' buffer').stores (buffer' + j)

theorem read_asAligned (hr : (sdTransferBlocks card ans mem startBlock numBlocks buffer false).1 =
    SD_OK) : AsAligned card ans mem startBlock numBlocks buffer false ↔
      buffer % 4 = 0 ∨ numBlocks = 0 := by
  have hstores (mem' buffer') := (sdTransferBlocks_moved hr mem' buffer').1
  simp only [Bool.false_eq_true, if_false] at hstores
  have hleaves (mem' : Nat → Byte) {buffer' : Nat} (hb : buffer' % 4 = 0) {j : Nat}
      (hj : j < 512 * numBlocks.toNat) :
      replay mem' (sdTransferBlocks card ans mem' startBlock numBlocks buffer' false).2.stores
        (buffer' + j) = byteOf (ans.data (j / 4)) (j % 4) := by
    rw [hstores, addresses_aligned hb]
    exact replay_storesOf ans mem' buffer' _ (by omega)
  simp only [AsAligned, Bool.false_eq_true, if_false]
  constructor
  · rintro ⟨-, hin, -⟩
    by_contra hnot
    obtain ⟨hb, hn⟩ := not_or.mp hnot
    obtain ⟨blocks, hblocks⟩ : ∃ blocks, numBlocks.toNat = blocks + 1 := by
      have hpos : numBlocks.toNat ≠ 0 := fun h => hn (BitVec.eq_of_toNat_eq h)
      exact ⟨numBlocks.toNat - 1, by omega⟩
    have hlast := last_mem_addresses hb blocks
    obtain ⟨w, hw, hout⟩ := exists_store ans 0 hlast
    have hlt := (hin w (by rw [hstores, hblocks]; exact hw)).2
    omega
  · rintro (hb | rfl)
    · refine ⟨fun j hj => hleaves mem hb hj, fun w hw => ?_, fun mem' buffer' hb' j hj => ?_⟩
      · rw [hstores, addresses_aligned hb] at hw
        obtain ⟨a, ha, hle, hlt⟩ := mem_storesOf hw
        obtain ⟨i, hi, rfl⟩ := List.mem_map.mp ha
        have hi := List.mem_range.mp hi
        exact ⟨by omega, by omega⟩
      · rw [hleaves mem hb hj, hleaves mem' hb' hj]
    · refine ⟨fun j hj => ?_, fun w hw => ?_, fun mem' buffer' hb' j hj => ?_⟩
      · simp at hj
      · rw [hstores] at hw
        cases hw
      · simp at hj

theorem write_asAligned (hw : (sdTransferBlocks card ans mem startBlock numBlocks buffer true).1 =
    SD_OK) : AsAligned card ans mem startBlock numBlocks buffer true ↔
      buffer % 4 = 0 ∨ numBlocks = 0 := by
  have hsent (mem' buffer') := (sdTransferBlocks_moved hw mem' buffer').2
  simp only [if_true] at hsent
  have hwords (mem' : Nat → Byte) {buffer' : Nat} (hb : buffer' % 4 = 0) :
      (sdTransferBlocks card ans mem' startBlock numBlocks buffer' true).2.sent =
        (List.range (128 * numBlocks.toNat)).map fun i => wordAt mem' (buffer' + 4 * i) := by
    rw [hsent, addresses_aligned hb, List.map_map]
    rfl
  simp only [AsAligned, if_true]
  constructor
  · rintro ⟨hsame, -⟩
    by_contra hnot
    obtain ⟨hb, hn⟩ := not_or.mp hnot
    have hpos : numBlocks.toNat ≠ 0 := fun h => hn (BitVec.eq_of_toNat_eq h)
    have hlen := congrArg List.length hsame
    rw [hsent, List.length_map, addresses_unaligned_length hb, List.length_map,
      List.length_range] at hlen
    omega
  · rintro (hb | rfl)
    · refine ⟨hwords mem hb, fun mem' buffer' hb' hcopy => ?_⟩
      rw [hwords mem hb, hwords mem' hb']
      apply List.map_congr_left
      intro i hi
      have hlt : 4 * i + 3 < 512 * numBlocks.toNat := by
        have hi := List.mem_range.mp hi
        omega
      simp only [wordAt, Nat.add_assoc]
      rw [hcopy _ (by omega), hcopy _ (by omega), hcopy _ (by omega), hcopy _ (by omega)]
    · refine ⟨hsent mem buffer, fun mem' buffer' _ _ => ?_⟩
      rw [hsent, hsent]
      rfl

/-- A transfer that ends well does not depend on the alignment of the buffer only where
nothing depends on it: at an aligned buffer, or without a block. -/
theorem a_transfer_is_as_aligned_iff
    (h : (sdTransferBlocks card ans mem startBlock numBlocks buffer write).1 = SD_OK) :
    AsAligned card ans mem startBlock numBlocks buffer write ↔
      buffer % 4 = 0 ∨ numBlocks = 0 := by
  cases write with
  | false => exact read_asAligned h
  | true => exact write_asAligned h

/-- A card of high capacity, and a controller on which nothing goes wrong. -/
def hcCard : Card := { type := .SD_TYPE_2_HC, CMD_SUPPORT := CMD_SUPP_SET_BLKCNT }

def quick : Wait := { td := 0, ival := 0 }

def quiet : Answers where
  free := quick
  reply := fun _ => { free := quick, done := quick, resp0 := 0 }
  ready := fun _ => quick
  dataDone := quick
  data := fun i => BitVec.ofNat 32 i

theorem two_blocks_at_address_8_are_as_aligned :
    AsAligned hcCard quiet (fun _ => 0) 0 2 8 false ↔ 8 % 4 = 0 ∨ (2 : Word) = 0 :=
  a_transfer_is_as_aligned_iff (by decide)

/-- One block at address 1 is read past the end of the buffer, and sent as 512 words. -/
theorem a_block_at_address_1_is_not_as_aligned :
    (sdTransferBlocks hcCard quiet (fun _ => 0) 0 1 1 false).1 = SD_OK ∧
      ¬ AsAligned hcCard quiet (fun _ => 0) 0 1 1 false ∧
      (sdTransferBlocks hcCard quiet (fun _ => 0) 0 1 1 true).1 = SD_OK ∧
      ¬ AsAligned hcCard quiet (fun _ => 0) 0 1 1 true := by
  have hr : (sdTransferBlocks hcCard quiet (fun _ => 0) 0 1 1 false).1 = SD_OK := by decide
  have hw : (sdTransferBlocks hcCard quiet (fun _ => 0) 0 1 1 true).1 = SD_OK := by decide
  have hnot : ¬ (1 % 4 = 0 ∨ (1 : Word) = 0) := by decide
  exact ⟨hr, fun h => hnot ((read_asAligned hr).mp h), hw,
    fun h => hnot ((write_asAligned hw).mp h)⟩

end rpi_wifi.block_transfer
