-- The property tags of the mailbox: a list of tags with their values in a
-- buffer of words, which the firmware answers in place. The writer goes on by
-- the number of words that each tag has, and the reader by the size word.
import Mathlib

namespace rpi_wifi.mailbox

inductive rpi_mailbox_tag_t where
  | TAG_GET_FIRMWARE_VERSION
  | TAG_GET_BOARD_MODEL
  | TAG_GET_BOARD_REVISION
  | TAG_GET_BOARD_MAC_ADDRESS
  | TAG_GET_BOARD_SERIAL
  | TAG_GET_ARM_MEMORY
  | TAG_GET_VC_MEMORY
  | TAG_GET_CLOCKS
  | TAG_GET_COMMAND_LINE
  | TAG_GET_DMA_CHANNELS
  | TAG_GET_POWER_STATE
  | TAG_GET_TIMING
  | TAG_SET_POWER_STATE
  | TAG_GET_CLOCK_STATE
  | TAG_SET_CLOCK_STATE
  | TAG_GET_CLOCK_RATE
  | TAG_SET_CLOCK_RATE
  | TAG_GET_MAX_CLOCK_RATE
  | TAG_GET_MIN_CLOCK_RATE
  | TAG_GET_TURBO
  | TAG_SET_TURBO
  | TAG_EXECUTE_QPU
  | TAG_ENABLE_QPU
  | TAG_ALLOCATE_MEMORY
  | TAG_LOCK_MEMORY
  | TAG_UNLOCK_MEMORY
  | TAG_RELEASE_MEMORY
  | TAG_EXECUTE_CODE
  | TAG_GET_DISPMANX_MEM_HANDLE
  | TAG_GET_EDID_BLOCK
  | TAG_GET_VOLTAGE
  | TAG_SET_VOLTAGE
  | TAG_GET_MAX_VOLTAGE
  | TAG_GET_MIN_VOLTAGE
  | TAG_GET_TEMPERATURE
  | TAG_GET_MAX_TEMPERATURE
  | TAG_GET_DOMAIN_STATE
  | TAG_GET_GPIO_STATE
  | TAG_SET_GPIO_STATE
  | TAG_GET_GPIO_CONFIG
  | TAG_SET_GPIO_CONFIG
  | TAG_SET_CUSTOMER_OTP
  | TAG_SET_DOMAIN_STATE
  | TAG_SET_SDHOST_CLOCK
  | TAG_ALLOCATE_BUFFER
  | TAG_RELEASE_BUFFER
  | TAG_BLANK_SCREEN
  | TAG_GET_PHYSICAL_SIZE
  | TAG_TEST_PHYSICAL_SIZE
  | TAG_SET_PHYSICAL_SIZE
  | TAG_GET_VIRTUAL_SIZE
  | TAG_TEST_VIRTUAL_SIZE
  | TAG_SET_VIRTUAL_SIZE
  | TAG_GET_DEPTH
  | TAG_TEST_DEPTH
  | TAG_SET_DEPTH
  | TAG_GET_PIXEL_ORDER
  | TAG_TEST_PIXEL_ORDER
  | TAG_SET_PIXEL_ORDER
  | TAG_GET_ALPHA_MODE
  | TAG_TEST_ALPHA_MODE
  | TAG_SET_ALPHA_MODE
  | TAG_GET_PITCH
  | TAG_GET_VIRTUAL_OFFSET
  | TAG_TEST_VIRTUAL_OFFSET
  | TAG_SET_VIRTUAL_OFFSET
  | TAG_GET_OVERSCAN
  | TAG_TEST_OVERSCAN
  | TAG_SET_OVERSCAN
  | TAG_GET_PALETTE
  | TAG_TEST_PALETTE
  | TAG_SET_PALETTE
  | TAG_SET_CURSOR_INFO
  | TAG_SET_CURSOR_STATE
  deriving DecidableEq

/-- The number of the tag. -/
def rpi_mailbox_tag_t.ident : rpi_mailbox_tag_t → BitVec 32
  | .TAG_GET_FIRMWARE_VERSION => 0x1
  | .TAG_GET_BOARD_MODEL => 0x10001
  | .TAG_GET_BOARD_REVISION => 0x10002
  | .TAG_GET_BOARD_MAC_ADDRESS => 0x10003
  | .TAG_GET_BOARD_SERIAL => 0x10004
  | .TAG_GET_ARM_MEMORY => 0x10005
  | .TAG_GET_VC_MEMORY => 0x10006
  | .TAG_GET_CLOCKS => 0x10007
  | .TAG_GET_COMMAND_LINE => 0x50001
  | .TAG_GET_DMA_CHANNELS => 0x60001
  | .TAG_GET_POWER_STATE => 0x20001
  | .TAG_GET_TIMING => 0x20002
  | .TAG_SET_POWER_STATE => 0x28001
  | .TAG_GET_CLOCK_STATE => 0x30001
  | .TAG_SET_CLOCK_STATE => 0x38001
  | .TAG_GET_CLOCK_RATE => 0x30002
  | .TAG_SET_CLOCK_RATE => 0x38002
  | .TAG_GET_MAX_CLOCK_RATE => 0x30004
  | .TAG_GET_MIN_CLOCK_RATE => 0x30007
  | .TAG_GET_TURBO => 0x30009
  | .TAG_SET_TURBO => 0x38009
  | .TAG_EXECUTE_QPU => 0x30011
  | .TAG_ENABLE_QPU => 0x30012
  | .TAG_ALLOCATE_MEMORY => 0x3000C
  | .TAG_LOCK_MEMORY => 0x3000D
  | .TAG_UNLOCK_MEMORY => 0x3000E
  | .TAG_RELEASE_MEMORY => 0x3000F
  | .TAG_EXECUTE_CODE => 0x30010
  | .TAG_GET_DISPMANX_MEM_HANDLE => 0x30014
  | .TAG_GET_EDID_BLOCK => 0x30020
  | .TAG_GET_VOLTAGE => 0x30003
  | .TAG_SET_VOLTAGE => 0x38003
  | .TAG_GET_MAX_VOLTAGE => 0x30005
  | .TAG_GET_MIN_VOLTAGE => 0x30008
  | .TAG_GET_TEMPERATURE => 0x30006
  | .TAG_GET_MAX_TEMPERATURE => 0x3000A
  | .TAG_GET_DOMAIN_STATE => 0x30030
  | .TAG_GET_GPIO_STATE => 0x30041
  | .TAG_SET_GPIO_STATE => 0x38041
  | .TAG_GET_GPIO_CONFIG => 0x30043
  | .TAG_SET_GPIO_CONFIG => 0x38043
  | .TAG_SET_CUSTOMER_OTP => 0x38021
  | .TAG_SET_DOMAIN_STATE => 0x38030
  | .TAG_SET_SDHOST_CLOCK => 0x38042
  | .TAG_ALLOCATE_BUFFER => 0x40001
  | .TAG_RELEASE_BUFFER => 0x48001
  | .TAG_BLANK_SCREEN => 0x40002
  | .TAG_GET_PHYSICAL_SIZE => 0x40003
  | .TAG_TEST_PHYSICAL_SIZE => 0x44003
  | .TAG_SET_PHYSICAL_SIZE => 0x48003
  | .TAG_GET_VIRTUAL_SIZE => 0x40004
  | .TAG_TEST_VIRTUAL_SIZE => 0x44004
  | .TAG_SET_VIRTUAL_SIZE => 0x48004
  | .TAG_GET_DEPTH => 0x40005
  | .TAG_TEST_DEPTH => 0x44005
  | .TAG_SET_DEPTH => 0x48005
  | .TAG_GET_PIXEL_ORDER => 0x40006
  | .TAG_TEST_PIXEL_ORDER => 0x44006
  | .TAG_SET_PIXEL_ORDER => 0x48006
  | .TAG_GET_ALPHA_MODE => 0x40007
  | .TAG_TEST_ALPHA_MODE => 0x44007
  | .TAG_SET_ALPHA_MODE => 0x48007
  | .TAG_GET_PITCH => 0x40008
  | .TAG_GET_VIRTUAL_OFFSET => 0x40009
  | .TAG_TEST_VIRTUAL_OFFSET => 0x44009
  | .TAG_SET_VIRTUAL_OFFSET => 0x48009
  | .TAG_GET_OVERSCAN => 0x4000A
  | .TAG_TEST_OVERSCAN => 0x4400A
  | .TAG_SET_OVERSCAN => 0x4800A
  | .TAG_GET_PALETTE => 0x4000B
  | .TAG_TEST_PALETTE => 0x4400B
  | .TAG_SET_PALETTE => 0x4800B
  | .TAG_SET_CURSOR_INFO => 0x8011
  | .TAG_SET_CURSOR_STATE => 0x8010

/-! ## The buffer -/

/-- The words of `pt`. -/
def PT_WORDS : Nat := 8192

/-- `pt` and `pt_index`. -/
structure Buffer where
  pt : Nat → BitVec 32
  pt_index : Nat

def PT_OSIZE : Nat := 0

def PT_OREQUEST_OR_RESPONSE : Nat := 1

def T_OVALUE_SIZE : Nat := 1

def T_ORESPONSE : Nat := 2

def T_OVALUE : Nat := 3

/-- `pt[pt_index++] = w`. -/
def Buffer.put (b : Buffer) (w : BitVec 32) : Buffer :=
  ⟨Function.update b.pt b.pt_index w, b.pt_index + 1⟩

/-- One `put` after the other. -/
def Buffer.puts (b : Buffer) (ws : List (BitVec 32)) : Buffer := ws.foldl Buffer.put b

/-- `pt_index += n`. -/
def Buffer.skip (b : Buffer) (n : Nat) : Buffer := { b with pt_index := b.pt_index + n }

/-- The NULL tag behind the last one. -/
def Buffer.terminate (b : Buffer) : Buffer := { b with pt := Function.update b.pt b.pt_index 0 }

def RPI_PropertyInit (b : Buffer) : Buffer :=
  let pt := Function.update b.pt PT_OSIZE 12
  let pt := Function.update pt PT_OREQUEST_OR_RESPONSE 0
  Buffer.terminate ⟨pt, 2⟩

open rpi_mailbox_tag_t in
def RPI_PropertyAddTag (b : Buffer) (tag : rpi_mailbox_tag_t) (va_arg : Nat → BitVec 32) :
    Buffer :=
  let b := b.put tag.ident
  let b :=
    match tag with
    | .TAG_GET_FIRMWARE_VERSION | .TAG_GET_BOARD_MODEL | .TAG_GET_BOARD_REVISION
    | .TAG_GET_BOARD_MAC_ADDRESS | .TAG_GET_BOARD_SERIAL | .TAG_GET_ARM_MEMORY
    | .TAG_GET_VC_MEMORY | .TAG_GET_DMA_CHANNELS => (b.puts [8, 0]).skip 2
    | .TAG_GET_CLOCKS | .TAG_GET_COMMAND_LINE => (b.puts [256, 0]).skip (256 >>> 2)
    | .TAG_GET_POWER_STATE | .TAG_ALLOCATE_BUFFER | .TAG_GET_MAX_CLOCK_RATE
    | .TAG_GET_MIN_CLOCK_RATE | .TAG_GET_CLOCK_RATE => b.puts [8, 0, va_arg 0, 0]
    | .TAG_SET_CLOCK_RATE => b.puts [12, 0, va_arg 0, va_arg 1, va_arg 2]
    | .TAG_GET_PHYSICAL_SIZE | .TAG_SET_PHYSICAL_SIZE | .TAG_TEST_PHYSICAL_SIZE
    | .TAG_GET_VIRTUAL_SIZE | .TAG_SET_VIRTUAL_SIZE | .TAG_TEST_VIRTUAL_SIZE
    | .TAG_GET_VIRTUAL_OFFSET | .TAG_SET_VIRTUAL_OFFSET =>
      let b := b.puts [8, 0]
      if tag = TAG_SET_PHYSICAL_SIZE ∨ tag = TAG_SET_VIRTUAL_SIZE ∨
          tag = TAG_SET_VIRTUAL_OFFSET ∨ tag = TAG_TEST_PHYSICAL_SIZE ∨
          tag = TAG_TEST_VIRTUAL_SIZE then b.puts [va_arg 0, va_arg 1]
      else b.skip 2
    | .TAG_GET_ALPHA_MODE | .TAG_SET_ALPHA_MODE | .TAG_GET_DEPTH | .TAG_SET_DEPTH
    | .TAG_GET_PIXEL_ORDER | .TAG_SET_PIXEL_ORDER | .TAG_GET_PITCH =>
      let b := b.puts [4, 0]
      if tag = TAG_SET_DEPTH ∨ tag = TAG_SET_PIXEL_ORDER ∨ tag = TAG_SET_ALPHA_MODE then
        b.puts [va_arg 0]
      else b.skip 1
    | .TAG_GET_OVERSCAN | .TAG_SET_OVERSCAN =>
      let b := b.puts [16, 0]
      if tag = TAG_SET_OVERSCAN then b.puts [va_arg 0, va_arg 1, va_arg 2, va_arg 3]
      else b.skip 4
    | .TAG_SET_POWER_STATE => b.puts [8, 0, va_arg 0, va_arg 1]
    | .TAG_ENABLE_QPU => b.puts [4, 0, va_arg 0]
    | .TAG_EXECUTE_QPU => b.puts [16, 0, va_arg 0, va_arg 1, va_arg 2, va_arg 3]
    | .TAG_ALLOCATE_MEMORY => b.puts [12, 0, va_arg 0, va_arg 1, va_arg 2]
    | .TAG_LOCK_MEMORY | .TAG_UNLOCK_MEMORY | .TAG_RELEASE_MEMORY => b.puts [4, 0, va_arg 0]
    | .TAG_EXECUTE_CODE =>
      b.puts [28, 0, va_arg 0, va_arg 1, va_arg 2, va_arg 3, va_arg 4, va_arg 5, va_arg 6]
    -- An unsupported tag is taken off the list.
    | _ => { b with pt_index := b.pt_index - 1 }
  b.terminate

/-- `RPI_PropertyProcess`. The mailbox hands `pt` to the firmware and waits for it. -/
def RPI_PropertyProcess (b : Buffer) (firmware : (Nat → BitVec 32) → Nat → BitVec 32) : Buffer :=
  let pt := Function.update b.pt PT_OSIZE (BitVec.ofNat 32 ((b.pt_index + 1) <<< 2))
  let pt := Function.update pt PT_OREQUEST_OR_RESPONSE 0
  { b with pt := firmware pt }

/-! ## The answer -/

/-- `rpi_mailbox_property_t`, with the bytes of its union. -/
structure Property where
  tag : BitVec 32
  byte_length : Nat
  data : Nat → BitVec 8

/-- `pt[index]`. There is none outside the buffer. -/
def readWord (pt : Nat → BitVec 32) (index : Int) : Option (BitVec 32) :=
  if 0 ≤ index ∧ index < PT_WORDS then some (pt index.toNat) else none

/-- Byte `k` of the words from `i` on. -/
def byteAt (pt : Nat → BitVec 32) (i k : Nat) : BitVec 8 :=
  (pt (i + k / 4)).extractLsb' (8 * (k % 4)) 8

/-- The loop of `RPI_PropertyGet`, with so many rounds to go: the index of the tag, or
`some none` at the end of the list. -/
def findTag (pt : Nat → BitVec 32) (tag : BitVec 32) : Nat → Int → Option (Option Nat)
  | 0, _ => none
  | n + 1, index =>
    if index < (pt PT_OSIZE).toInt >>> (2 : Nat) then
      (readWord pt index).bind fun word =>
        if word = tag then some (some index.toNat)
        else (readWord pt (index + T_OVALUE_SIZE)).bind fun size =>
          findTag pt tag n (index + ((size.toInt >>> (2 : Nat)) + 3))
    else some none

/-- `RPI_PropertyGet`, with its static `property` and whether it returns a pointer to it. A
list that goes in a circle, and a read or a write out of bounds, give no result. -/
def RPI_PropertyGet (b : Buffer) (property : Property) (tag : rpi_mailbox_tag_t) :
    Option (Property × Bool) :=
  let property := { property with tag := tag.ident }
  (findTag b.pt tag.ident PT_WORDS 2).bind fun tag_buffer =>
    match tag_buffer with
    | none => some (property, false)
    | some i => (readWord b.pt (i + T_ORESPONSE : Nat)).bind fun response =>
      let byte_length := (response &&& 0xFFFF).toNat
      if 256 < byte_length ∨ 4 * PT_WORDS < 4 * (i + T_OVALUE) + byte_length then none
      else
        let data := fun k =>
          if k < byte_length then byteAt b.pt (i + T_OVALUE) k else property.data k
        some ({ property with byte_length, data }, true)

/-! ## The list in the buffer -/

/-- The size in bytes of the value of a tag. An unsupported tag has none. -/
def rpi_mailbox_tag_t.valueSize : rpi_mailbox_tag_t → Option Nat
  | .TAG_GET_ALPHA_MODE | .TAG_SET_ALPHA_MODE | .TAG_GET_DEPTH | .TAG_SET_DEPTH
  | .TAG_GET_PIXEL_ORDER | .TAG_SET_PIXEL_ORDER | .TAG_GET_PITCH | .TAG_ENABLE_QPU
  | .TAG_LOCK_MEMORY | .TAG_UNLOCK_MEMORY | .TAG_RELEASE_MEMORY => some 4
  | .TAG_GET_FIRMWARE_VERSION | .TAG_GET_BOARD_MODEL | .TAG_GET_BOARD_REVISION
  | .TAG_GET_BOARD_MAC_ADDRESS | .TAG_GET_BOARD_SERIAL | .TAG_GET_ARM_MEMORY
  | .TAG_GET_VC_MEMORY | .TAG_GET_DMA_CHANNELS | .TAG_GET_POWER_STATE | .TAG_ALLOCATE_BUFFER
  | .TAG_GET_MAX_CLOCK_RATE | .TAG_GET_MIN_CLOCK_RATE | .TAG_GET_CLOCK_RATE
  | .TAG_GET_PHYSICAL_SIZE | .TAG_SET_PHYSICAL_SIZE | .TAG_TEST_PHYSICAL_SIZE
  | .TAG_GET_VIRTUAL_SIZE | .TAG_SET_VIRTUAL_SIZE | .TAG_TEST_VIRTUAL_SIZE
  | .TAG_GET_VIRTUAL_OFFSET | .TAG_SET_VIRTUAL_OFFSET | .TAG_SET_POWER_STATE => some 8
  | .TAG_SET_CLOCK_RATE | .TAG_ALLOCATE_MEMORY => some 12
  | .TAG_GET_OVERSCAN | .TAG_SET_OVERSCAN | .TAG_EXECUTE_QPU => some 16
  | .TAG_EXECUTE_CODE => some 28
  | .TAG_GET_CLOCKS | .TAG_GET_COMMAND_LINE => some 256
  | _ => none

abbrev Tag := rpi_mailbox_tag_t

def Tag.supported (t : Tag) : Bool := t.valueSize.isSome

/-- The words of the record of a tag: its number, the size, the response and the value. -/
def Tag.words (t : Tag) : Nat := 3 + t.valueSize.getD 0 / 4

/-- The index behind the records of the tags, from index `i` on. -/
def endOf : Nat → List Tag → Nat
  | i, [] => i
  | i, t :: ts => endOf (i + Tag.words t) ts

/-- The index of the first record of the tag. -/
def startOf (tag : Tag) : Nat → List Tag → Nat
  | i, [] => i
  | i, t :: ts => if t = tag then i else startOf tag (i + Tag.words t) ts

/-- The records of the tags stand in the buffer, from index `i` on. -/
def Holds (pt : Nat → BitVec 32) : Nat → List Tag → Prop
  | _, [] => True
  | i, t :: ts =>
    pt i = t.ident ∧ pt (i + 1) = BitVec.ofNat 32 (t.valueSize.getD 0) ∧
      Holds pt (i + Tag.words t) ts

/-- An answer leaves the number and the size of each tag, and the length of the response is
at most the size. -/
def Answers (before after : Nat → BitVec 32) : Nat → List Tag → Prop
  | _, [] => True
  | i, t :: ts =>
    after i = before i ∧ after (i + 1) = before (i + 1) ∧
      (after (i + 2)).toNat % 2 ^ 31 ≤ t.valueSize.getD 0 ∧
        Answers before after (i + Tag.words t) ts

variable {b c : Buffer} {tag : Tag} {pt : Nat → BitVec 32} {i : Nat}

/-! ## The writer -/

/-- The buffer goes on by so many words, and the words before stay. -/
structure Grows (b c : Buffer) (n : Nat) : Prop where
  index : c.pt_index = b.pt_index + n
  before : ∀ j < b.pt_index, c.pt j = b.pt j

theorem Grows.trans {d : Buffer} {n m : Nat} (h : Grows b c n) (h' : Grows c d m) :
    Grows b d (n + m) := by
  refine ⟨by rw [h'.index, h.index, Nat.add_assoc], ?_⟩
  intro j hj
  rw [h'.before j (by rw [h.index]; omega), h.before j hj]

theorem put_grows (b : Buffer) (w : BitVec 32) : Grows b (b.put w) 1 :=
  ⟨rfl, fun _ hj => Function.update_of_ne hj.ne _ _⟩

theorem puts_grows (b : Buffer) (ws : List (BitVec 32)) : Grows b (b.puts ws) ws.length := by
  induction ws generalizing b with
  | nil => exact ⟨rfl, fun _ _ => rfl⟩
  | cons w ws ih =>
    have h := (put_grows b w).trans (ih (b.put w))
    rw [Nat.add_comm] at h
    exact h

theorem skip_grows (b : Buffer) (n : Nat) : Grows b (b.skip n) n := ⟨rfl, fun _ _ => rfl⟩

theorem terminate_grows (b : Buffer) : Grows b b.terminate 0 :=
  ⟨rfl, fun _ hj => Function.update_of_ne hj.ne _ _⟩

/-- The record of a tag with its number and size. -/
structure Record (b c : Buffer) (id size : BitVec 32) (n : Nat) : Prop where
  grows : Grows b c n
  ident : c.pt b.pt_index = id
  size : c.pt (b.pt_index + 1) = size

/-- Whatever follows the response word is part of the value. -/
theorem record_of_grows {id size : BitVec 32} {n : Nat}
    (h : Grows ((b.put id).puts [size, 0]) c n) : Record b c.terminate id size (3 + n) := by
  have hhead : Grows b ((b.put id).puts [size, 0]) 3 :=
    (put_grows b id).trans (puts_grows _ [size, 0])
  have hall := (hhead.trans h).trans (terminate_grows c)
  have hkeep := h.trans (terminate_grows c)
  refine ⟨hall, ?_, ?_⟩
  · rw [hkeep.before _ (by rw [hhead.index]; omega)]
    simp only [Buffer.puts, Buffer.put, List.foldl_cons, List.foldl_nil]
    rw [Function.update_of_ne (by omega), Function.update_of_ne (by omega), Function.update_self]
  · rw [hkeep.before _ (by rw [hhead.index]; omega)]
    simp [Buffer.puts, Buffer.put]

theorem record_puts (b : Buffer) (id size : BitVec 32) (ws : List (BitVec 32)) :
    Record b ((b.put id).puts (size :: 0 :: ws)).terminate id size (3 + ws.length) :=
  record_of_grows (puts_grows ((b.put id).puts [size, 0]) ws)

theorem record_skip (b : Buffer) (id size : BitVec 32) (n : Nat) :
    Record b (((b.put id).puts [size, 0]).skip n).terminate id size (3 + n) :=
  record_of_grows (skip_grows _ n)

theorem record_more (b : Buffer) (id size : BitVec 32) (ws : List (BitVec 32)) :
    Record b (((b.put id).puts [size, 0]).puts ws).terminate id size (3 + ws.length) :=
  record_of_grows (puts_grows _ ws)

/-- A supported tag goes into the buffer with as many words as its size word says. -/
theorem add_supported (b : Buffer) (tag : Tag) (va_arg : Nat → BitVec 32)
    (h : tag.supported = true) :
    Record b (RPI_PropertyAddTag b tag va_arg) tag.ident
      (BitVec.ofNat 32 (tag.valueSize.getD 0)) tag.words := by
  cases tag <;> first
    | exact absurd h (by decide)
    | (dsimp only [RPI_PropertyAddTag]; apply record_skip)
    | (dsimp only [RPI_PropertyAddTag]; apply record_puts)
    | (dsimp only [RPI_PropertyAddTag]; apply record_more)

/-- An unsupported tag leaves the list as it is. -/
theorem add_unsupported (b : Buffer) (tag : Tag) (va_arg : Nat → BitVec 32)
    (h : tag.supported = false) : Grows b (RPI_PropertyAddTag b tag va_arg) 0 := by
  have hback : ∀ id, Grows b (Buffer.terminate ⟨(b.put id).pt, (b.put id).pt_index - 1⟩) 0 := by
    intro id
    refine ⟨rfl, ?_⟩
    intro j hj
    show Function.update (Function.update b.pt b.pt_index id) b.pt_index 0 j = b.pt j
    rw [Function.update_of_ne hj.ne, Function.update_of_ne hj.ne]
  cases tag <;> first
    | exact absurd h (by decide)
    | exact hback _

/-- Tags are added one after the other. -/
def addAll (b : Buffer) (calls : List (Tag × (Nat → BitVec 32))) : Buffer :=
  calls.foldl (fun b call => RPI_PropertyAddTag b call.1 call.2) b

/-- The supported tags of the calls. -/
def tagsOf (calls : List (Tag × (Nat → BitVec 32))) : List Tag :=
  (calls.map Prod.fst).filter Tag.supported

/-- The buffer holds the supported tags in the order of the calls. -/
theorem addAll_holds (b : Buffer) (calls : List (Tag × (Nat → BitVec 32))) :
    (addAll b calls).pt_index = endOf b.pt_index (tagsOf calls) ∧
      Holds (addAll b calls).pt b.pt_index (tagsOf calls) ∧
      ∀ j < b.pt_index, (addAll b calls).pt j = b.pt j := by
  induction calls generalizing b with
  | nil => exact ⟨rfl, trivial, fun _ _ => rfl⟩
  | cons call calls ih =>
    obtain ⟨tag, va_arg⟩ := call
    obtain ⟨hindex, hholds, hbefore⟩ := ih (RPI_PropertyAddTag b tag va_arg)
    have hcons : addAll b ((tag, va_arg) :: calls) = addAll (RPI_PropertyAddTag b tag va_arg) calls :=
      rfl
    rw [hcons]
    cases h : tag.supported with
    | false =>
      have hadd := add_unsupported b tag va_arg h
      have htags : tagsOf ((tag, va_arg) :: calls) = tagsOf calls := by
        simp [tagsOf, h]
      rw [hadd.index] at hindex hholds hbefore
      rw [htags]
      refine ⟨hindex, hholds, ?_⟩
      intro j hj
      rw [hbefore j hj, hadd.before j hj]
    | true =>
      have hadd := add_supported b tag va_arg h
      have htags : tagsOf ((tag, va_arg) :: calls) = tag :: tagsOf calls := by
        simp [tagsOf, h]
      have hwords : 3 ≤ tag.words := Nat.le_add_right _ _
      rw [hadd.grows.index] at hindex hholds hbefore
      rw [htags]
      refine ⟨hindex, ⟨?_, ?_, hholds⟩, ?_⟩
      · rw [hbefore _ (by omega), hadd.ident]
      · rw [hbefore _ (by omega), hadd.size]
      · intro j hj
        rw [hbefore j (by omega), hadd.grows.before j hj]

/-! ## The reader -/

/-- No two tags have the same number. -/
theorem ident_injective : Function.Injective rpi_mailbox_tag_t.ident := by
  have hnumbers : ∀ i < 74, ∀ j < 74,
      (rpi_mailbox_tag_t.ofNat i).ident = (rpi_mailbox_tag_t.ofNat j).ident → i = j := by
    decide +kernel
  have hindex : ∀ t : rpi_mailbox_tag_t, t.ctorIdx < 74 := by
    intro t
    cases t <;> decide
  intro t u h
  have hsame := hnumbers t.ctorIdx (hindex t) u.ctorIdx (hindex u)
  rw [rpi_mailbox_tag_t.ofNat_ctorIdx, rpi_mailbox_tag_t.ofNat_ctorIdx] at hsame
  rw [← rpi_mailbox_tag_t.ofNat_ctorIdx t, hsame h, rpi_mailbox_tag_t.ofNat_ctorIdx]

theorem valueSize_le (t : Tag) : t.valueSize.getD 0 ≤ 256 := by
  cases t <;> decide

theorem le_endOf (ts : List Tag) (i : Nat) : i + ts.length ≤ endOf i ts := by
  induction ts generalizing i with
  | nil => exact le_rfl
  | cons t ts ih =>
    have h := ih (i + Tag.words t)
    unfold endOf
    unfold Tag.words at h ⊢
    rw [List.length_cons]
    omega

theorem startOf_le {ts : List Tag} (h : tag ∈ ts) (i : Nat) :
    i ≤ startOf tag i ts ∧ startOf tag i ts + tag.words ≤ endOf i ts := by
  induction ts generalizing i with
  | nil => cases h
  | cons t ts ih =>
    unfold startOf endOf
    split
    · next ht =>
      subst ht
      have := le_endOf ts (i + Tag.words t)
      exact ⟨le_rfl, by omega⟩
    · next ht =>
      obtain ⟨h1, h2⟩ := ih (List.mem_of_ne_of_mem (Ne.symm ht) h) (i + Tag.words t)
      exact ⟨by omega, h2⟩

theorem holds_congr {before after : Nat → BitVec 32} {ts : List Tag}
    (h : Holds before i ts) (hsame : ∀ j, i ≤ j → after j = before j) : Holds after i ts := by
  induction ts generalizing i with
  | nil => trivial
  | cons t ts ih =>
    obtain ⟨hident, hsize, hrest⟩ := h
    refine ⟨by rw [hsame i le_rfl, hident], by rw [hsame (i + 1) (by omega), hsize], ?_⟩
    exact ih hrest fun j hj => hsame j (by omega)

/-- The answer has the same tags at the same places. -/
theorem holds_of_answers {before after : Nat → BitVec 32} {ts : List Tag}
    (h : Holds before i ts) (ha : Answers before after i ts) : Holds after i ts := by
  induction ts generalizing i with
  | nil => trivial
  | cons t ts ih =>
    obtain ⟨hident, hsize, hrest⟩ := h
    obtain ⟨hident', hsize', -, hrest'⟩ := ha
    exact ⟨hident'.trans hident, hsize'.trans hsize, ih hrest hrest'⟩

theorem answers_at {before after : Nat → BitVec 32} {ts : List Tag} (h : tag ∈ ts)
    (ha : Answers before after i ts) :
    (after (startOf tag i ts + 2)).toNat % 2 ^ 31 ≤ tag.valueSize.getD 0 := by
  induction ts generalizing i with
  | nil => cases h
  | cons t ts ih =>
    obtain ⟨-, -, hlength, hrest⟩ := ha
    unfold startOf
    split
    · next ht =>
      subst ht
      exact hlength
    · next ht => exact ih (List.mem_of_ne_of_mem (Ne.symm ht) h) hrest

theorem readWord_some {j : Nat} (h : j < PT_WORDS) : readWord pt j = some (pt j) := by
  unfold readWord
  rw [if_pos ⟨by omega, by exact_mod_cast h⟩]
  rfl

/-- The size word of a record leads to the next one. -/
theorem valueSize_step (t : Tag) (i : Nat) :
    (i : Int) + (((BitVec.ofNat 32 (t.valueSize.getD 0)).toInt >>> (2 : Nat)) + 3) =
      (i + Tag.words t : Nat) := by
  have hbound := valueSize_le t
  have hwords : Tag.words t = 3 + t.valueSize.getD 0 / 4 := rfl
  rw [BitVec.toInt_eq_toNat_of_lt (by rw [BitVec.toNat_ofNat]; omega), BitVec.toNat_ofNat,
    Nat.mod_eq_of_lt (by omega), Int.shiftRight_eq_div_pow, hwords]
  push_cast
  omega

/-- The walk goes from record to record and stops at the first one of the tag: values that
look like the number of a tag are not looked at. -/
theorem findTag_first {ts : List Tag} {fuel : Nat} (h : tag ∈ ts) (hh : Holds pt i ts)
    (hend : endOf i ts < PT_WORDS) (hsize : (endOf i ts : Int) < (pt PT_OSIZE).toInt >>> (2 : Nat))
    (hfuel : ts.length < fuel) :
    findTag pt tag.ident fuel i = some (some (startOf tag i ts)) := by
  induction ts generalizing i fuel with
  | nil => cases h
  | cons t ts ih =>
    obtain ⟨fuel, rfl⟩ := Nat.exists_eq_succ_of_ne_zero (Nat.ne_zero_of_lt hfuel)
    obtain ⟨hident, hsizeword, hrest⟩ := hh
    have hle := le_endOf ts (i + Tag.words t)
    have hwords : Tag.words t = 3 + t.valueSize.getD 0 / 4 := rfl
    rw [endOf] at hend hsize
    rw [findTag, if_pos (by omega), readWord_some (by omega), Option.bind_some, hident]
    unfold startOf
    by_cases ht : t = tag
    · rw [if_pos (congrArg _ ht), if_pos ht]
      rfl
    · have hne : ¬ t.ident = tag.ident := fun he => ht (ident_injective he)
      have hread : readWord pt (i + T_OVALUE_SIZE) = some (pt (i + 1)) :=
        readWord_some (j := i + 1) (by omega)
      rw [if_neg hne, if_neg ht, hread, Option.bind_some, hsizeword]
      rw [valueSize_step]
      rw [List.length_cons] at hfuel
      exact ih (List.mem_of_ne_of_mem (Ne.symm ht) h) hrest hend hsize (by omega)

/-! ## The round trip -/

/-- The buffer with the tags of the calls, as it goes to the firmware. -/
def request (b : Buffer) (calls : List (Tag × (Nat → BitVec 32))) : Buffer :=
  addAll (RPI_PropertyInit b) calls

/-- The firmware keeps the size of the buffer, and it changes no more of the records than
their responses and values. -/
structure Polite (firmware : (Nat → BitVec 32) → Nat → BitVec 32) (b : Buffer)
    (tags : List Tag) : Prop where
  size : (RPI_PropertyProcess b firmware).pt PT_OSIZE = (RPI_PropertyProcess b id).pt PT_OSIZE
  answers : Answers (RPI_PropertyProcess b id).pt (RPI_PropertyProcess b firmware).pt 2 tags

theorem process_size (b : Buffer) :
    (RPI_PropertyProcess b id).pt PT_OSIZE = BitVec.ofNat 32 ((b.pt_index + 1) <<< 2) := by
  simp [RPI_PropertyProcess, PT_OSIZE, PT_OREQUEST_OR_RESPONSE]

/-- The words behind the head of the buffer go to the firmware as they are. -/
theorem process_words (b : Buffer) {j : Nat} (hj : 2 ≤ j) :
    (RPI_PropertyProcess b id).pt j = b.pt j := by
  unfold RPI_PropertyProcess PT_OSIZE PT_OREQUEST_OR_RESPONSE
  dsimp only [id]
  rw [Function.update_of_ne (by omega), Function.update_of_ne (by omega)]

theorem size_word {n : Nat} (h : n < PT_WORDS) :
    (BitVec.ofNat 32 ((n + 1) <<< 2)).toInt >>> (2 : Nat) = (n : Int) + 1 := by
  unfold PT_WORDS at h
  have hshift : (n + 1) <<< 2 = 4 * (n + 1) := by
    rw [Nat.shiftLeft_eq]
    omega
  have hsmall : (BitVec.ofNat 32 (4 * (n + 1))).toNat = 4 * (n + 1) := by
    rw [BitVec.toNat_ofNat, Nat.mod_eq_of_lt (by omega)]
  rw [hshift, BitVec.toInt_eq_toNat_of_lt (by omega), hsmall, Int.shiftRight_eq_div_pow]
  push_cast
  omega

/-- The length that is read from the response. -/
theorem response_length {response : BitVec 32} (h : response.toNat % 2 ^ 31 ≤ 256) :
    (response &&& 0xFFFF).toNat = response.toNat % 2 ^ 31 := by
  have hmask : (response &&& 0xFFFF).toNat = response.toNat % 2 ^ 16 := by
    rw [BitVec.toNat_and]
    exact Nat.and_two_pow_sub_one_eq_mod response.toNat 16
  rw [hmask]
  omega

/-- `RPI_PropertyGet` returns the answer to the first call with the tag: the length of its
response and so many bytes of its value. -/
theorem RPI_PropertyGet_returns_the_first (b : Buffer)
    (calls : List (Tag × (Nat → BitVec 32))) (firmware : (Nat → BitVec 32) → Nat → BitVec 32)
    (property : Property) (tag : Tag) (htag : tag ∈ tagsOf calls)
    (hfits : endOf 2 (tagsOf calls) < PT_WORDS)
    (hfirmware : Polite firmware (request b calls) (tagsOf calls)) :
    let answer := RPI_PropertyProcess (request b calls) firmware
    let first := startOf tag 2 (tagsOf calls)
    let length := (answer.pt (first + T_ORESPONSE)).toNat % 2 ^ 31
    length ≤ tag.valueSize.getD 0 ∧
      RPI_PropertyGet answer property tag =
        some (⟨tag.ident, length, fun k =>
          if k < length then byteAt answer.pt (first + T_OVALUE) k else property.data k⟩, true) := by
  intro answer first length
  obtain ⟨hindex, hholds, -⟩ := addAll_holds (RPI_PropertyInit b) calls
  have hwords : Holds answer.pt 2 (tagsOf calls) :=
    holds_of_answers (holds_congr hholds fun j hj => process_words _ hj) hfirmware.answers
  have hsize : (answer.pt PT_OSIZE).toInt >>> (2 : Nat) = (endOf 2 (tagsOf calls) : Int) + 1 := by
    rw [hfirmware.size, process_size]
    have hlast : (request b calls).pt_index = endOf 2 (tagsOf calls) := hindex
    rw [hlast, size_word hfits]
  have hfuel : (tagsOf calls).length < PT_WORDS := by
    have := le_endOf (tagsOf calls) 2
    omega
  have hfind := findTag_first htag hwords hfits (by omega) hfuel
  have hlength : length ≤ tag.valueSize.getD 0 := answers_at htag hfirmware.answers
  have hbound := valueSize_le tag
  obtain ⟨hlow, hhigh⟩ := startOf_le htag 2
  unfold Tag.words at hhigh
  have hread : readWord answer.pt (first + T_ORESPONSE : Nat) =
      some (answer.pt (first + T_ORESPONSE)) :=
    readWord_some (by unfold T_ORESPONSE; omega)
  have hmask := response_length (hlength.trans hbound)
  refine ⟨hlength, ?_⟩
  unfold RPI_PropertyGet
  dsimp only
  have hroom : ¬ (256 < length ∨ 4 * PT_WORDS < 4 * (first + T_OVALUE) + length) := by
    unfold T_OVALUE
    omega
  rw [show (2 : Int) = ((2 : Nat) : Int) from rfl, hfind, Option.bind_some]
  dsimp only
  rw [hread, Option.bind_some, hmask, if_neg hroom]

/-- A clock, a tag that is not supported, the depth of the screen, and the memory of the ARM. -/
def memoryCalls : List (Tag × (Nat → BitVec 32)) :=
  [(.TAG_SET_CLOCK_RATE, fun i => [3, 700000000, 0].getD i 0), (.TAG_GET_TIMING, fun _ => 0),
    (.TAG_GET_DEPTH, fun _ => 0), (.TAG_GET_ARM_MEMORY, fun _ => 0)]

/-- The firmware answers the three records, and gives the size of the memory in the second word
of the last value. -/
def memoryFirmware (pt : Nat → BitVec 32) : Nat → BitVec 32 :=
  let clock := Function.update pt 4 0x80000008
  let depth := Function.update (Function.update clock 10 0x80000004) 11 32
  Function.update (Function.update depth 14 0x80000008) 16 0x3B400000

/-- The size of the memory comes back from behind two other records. -/
theorem the_memory_size_comes_back :
    ∃ property, RPI_PropertyGet
        (RPI_PropertyProcess (request ⟨fun _ => 0, 0⟩ memoryCalls) memoryFirmware)
        ⟨0, 0, fun _ => 0⟩ .TAG_GET_ARM_MEMORY = some (property, true) ∧
      property.byte_length = 8 ∧ property.data 6 = 0x40 ∧ property.data 7 = 0x3B := by
  have hpolite : Polite memoryFirmware (request ⟨fun _ => 0, 0⟩ memoryCalls)
      (tagsOf memoryCalls) := by
    refine ⟨by decide, ?_, ?_, ?_, ?_, ?_, ?_, ?_, ?_, ?_, trivial⟩
    · decide
    · decide
    · decide
    · decide
    · decide
    · decide
    · decide
    · decide
    · decide
  obtain ⟨-, hget⟩ := RPI_PropertyGet_returns_the_first ⟨fun _ => 0, 0⟩ memoryCalls memoryFirmware
    ⟨0, 0, fun _ => 0⟩ .TAG_GET_ARM_MEMORY (by decide) (by decide) hpolite
  exact ⟨_, hget, by decide, by decide, by decide⟩

end rpi_wifi.mailbox
