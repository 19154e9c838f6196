-- The law of the backplane: `sbmem` is a plain copy. The commands carry their
-- fields, the transfers of a buffer join to one move through function 1, and
-- the windows join to one move through the backplane.
import RpiWifi.Backplane

namespace rpi_wifi.ether4330

open transfers

variable {answer : Answer} {c d : Chip} {write : Bool}

/-! ## The fields of the commands -/

theorem readArg_eq (fn addr : BitVec 32) :
    (fn &&& 7) <<< 28 ||| (addr &&& 0x1FFFF) <<< 9 = extendedArg fn false false false addr 0 := by
  simp [extendedArg]

theorem writeArg_eq (fn addr data : BitVec 32) :
    1 <<< 31 ||| (fn &&& 7) <<< 28 ||| (addr &&& 0x1FFFF) <<< 9 ||| (data &&& 0xFF) =
      extendedArg fn true false false addr (data &&& 0xFF).toNat := by
  have hlow : data &&& 255#32 &&& 511#32 = data &&& 255#32 := by
    rw [BitVec.and_assoc]
    rfl
  simp [extendedArg]
  rw [hlow]

section fields

variable (fn : BitVec 32) (blk incr : Bool) (addr : BitVec 32) (bcount : Nat)

@[simp] theorem argWrite_extended :
    argWrite (extendedArg fn write blk incr addr bcount) = write := by
  simp [argWrite, extendedArg]

theorem argFn_extendedArg : argFn (extendedArg fn write blk incr addr bcount) = fn &&& 7 := by
  apply BitVec.eq_of_getLsbD_eq
  intro i hi
  simp only [argFn, extendedArg]
  interval_cases i <;> simp

@[simp] theorem argFn_extended : argFn (extendedArg Fn1 write blk incr addr bcount) = Fn1 :=
  argFn_extendedArg Fn1 blk incr addr bcount

@[simp] theorem argBlk_extended : argBlk (extendedArg fn write blk incr addr bcount) = blk := by
  simp [argBlk, extendedArg]

@[simp] theorem argIncr_extended : argIncr (extendedArg fn write blk incr addr bcount) = incr := by
  simp [argIncr, extendedArg]

@[simp] theorem argAddr_extended :
    argAddr (extendedArg fn write blk incr addr bcount) = addr &&& 0x1FFFF := by
  apply BitVec.eq_of_getLsbD_eq
  intro i hi
  simp only [argAddr, extendedArg]
  interval_cases i <;> simp

theorem low_extended :
    extendedArg fn write blk incr addr bcount &&& 0x1FF = BitVec.ofNat 32 bcount &&& 0x1FF := by
  apply BitVec.eq_of_getLsbD_eq
  intro i hi
  simp only [extendedArg]
  interval_cases i <;> simp

theorem count_extended (h : bcount < 2 ^ 32) :
    (extendedArg fn write blk incr addr bcount &&& 0x1FF).toNat = bcount % 512 := by
  have hmod : bcount &&& 2 ^ 9 - 1 = bcount % 2 ^ 9 := Nat.and_two_pow_sub_one_eq_mod _ 9
  rw [low_extended, BitVec.toNat_and, BitVec.toNat_ofNat, Nat.mod_eq_of_lt h]
  exact hmod

end fields

theorem blockSize_Fn1 : blockSize Fn1 = 64 := rfl

theorem argBytes_extended {blk incr : Bool} {addr : BitVec 32} {bcount : Nat} (h0 : 0 < bcount)
    (hlt : bcount < 512) :
    argBytes (extendedArg Fn1 write blk incr addr bcount) =
      if blk then bcount * 64 else bcount := by
  have hcount : (extendedArg Fn1 write blk incr addr bcount &&& 0x1FF).toNat = bcount := by
    rw [count_extended _ _ _ _ _ (by omega), Nat.mod_eq_of_lt hlt]
  have hne : bcount ≠ 0 := by omega
  unfold argBytes
  simp only [hcount, argBlk_extended, argFn_extended, blockSize_Fn1, if_neg hne]

/-! ## One byte of function 1 -/

theorem addr_and {addr : BitVec 32} (h : addr.toNat < 0x20000) : addr &&& 0x1FFFF = addr := by
  have hmod : addr.toNat &&& 2 ^ 17 - 1 = addr.toNat % 2 ^ 17 := Nat.and_two_pow_sub_one_eq_mod _ 17
  apply BitVec.eq_of_toNat_eq
  rw [BitVec.toNat_and]
  exact hmod.trans (by omega)

/-- The response of a command has none of the error bits. -/
theorem response_ok (v : Byte) : (0x1000 ||| v.setWidth 32 : BitVec 32) &&& 0xCF00 = 0 := by
  apply BitVec.eq_of_getLsbD_eq
  intro i hi
  interval_cases i <;> simp

theorem response_data (v : Byte) : (0x1000 ||| v.setWidth 32 : BitVec 32).setWidth 8 = v := by
  apply BitVec.eq_of_getLsbD_eq
  intro i hi
  interval_cases i <;> simp

/-- A read does not look at the value in the buffer. -/
theorem access_read (fn a : BitVec 32) (b b' : Byte) :
    c.access answer fn false a b = c.access answer fn false a b' := rfl

/-- A write leaves the value in the buffer. -/
theorem access_write (fn a : BitVec 32) (b : Byte) :
    ((c.access answer fn true a b).1, b) = c.access answer fn true a b := by
  unfold Chip.access
  split <;> rfl

theorem sdiord_eq {addr : BitVec 32} (h : addr.toNat < 0x20000) (b : Byte) :
    sdiord answer c Fn1 addr = c.access answer Fn1 false addr b := by
  unfold sdiord Chip.IO_RW_DIRECT
  dsimp only
  rw [readArg_eq]
  simp only [argWrite_extended, argFn_extended, argAddr_extended, addr_and h, response_ok,
    response_data, ne_eq, not_true_eq_false, if_false]
  exact access_read _ _ _ _

/-- The byte that a command of one byte carries. -/
theorem data_extended (addr data : BitVec 32) :
    (extendedArg Fn1 true false false addr (data &&& 0xFF).toNat).setWidth 8 = data.setWidth 8 := by
  apply BitVec.eq_of_getLsbD_eq
  intro i hi
  simp only [extendedArg, Fn1]
  interval_cases i <;> simp

theorem sdiowr_eq {addr data : BitVec 32} (h : addr.toNat < 0x20000) :
    sdiowr answer c Fn1 addr data = (c.access answer Fn1 true addr (data.setWidth 8)).1 := by
  unfold sdiowr
  rw [writeArg_eq]
  simp only [sdiowrTry, Chip.IO_RW_DIRECT, argWrite_extended, argFn_extended, argAddr_extended,
    addr_and h, data_extended, response_ok, if_true]

/-! ## Moves -/

/-- The addresses from `a` on. -/
def upFrom (a : BitVec 32) : Nat → BitVec 32 := fun i => a + BitVec.ofNat 32 i

theorem upFrom_zero (a : BitVec 32) : upFrom a 0 = a := by simp [upFrom]

theorem upFrom_add (a : BitVec 32) (n : Nat) :
    (fun i => upFrom a (n + i)) = upFrom (a + BitVec.ofNat 32 n) := by
  funext i
  simp only [upFrom, BitVec.ofNat_add]
  rw [BitVec.add_assoc]

theorem upFrom_toNat {a : BitVec 32} {i : Nat} (h : a.toNat + i < 2 ^ 32) :
    (upFrom a i).toNat = a.toNat + i := by
  rw [upFrom, BitVec.toNat_add, BitVec.toNat_ofNat]
  omega

theorem upFrom_inj {a : BitVec 32} {i j : Nat} (hi : i < 2 ^ 32) (hj : j < 2 ^ 32)
    (h : upFrom a i = upFrom a j) : i = j := by
  have := congrArg BitVec.toNat h
  simp only [upFrom, BitVec.toNat_add, BitVec.toNat_ofNat] at this
  omega

/-- A transfer of the length that its argument says is a move through function 1. -/
theorem extended_eq {blk : Bool} {addr : BitVec 32} {bcount : Nat} {a : List Byte}
    (h : addr.toNat < 0x20000) (h0 : 0 < bcount) (hlt : bcount < 512)
    (hlen : a.length = if blk then bcount * 64 else bcount) :
    c.IO_RW_EXTENDED answer (extendedArg Fn1 write blk true addr bcount) a =
      move (Chip.access answer Fn1 write) c (upFrom addr) a := by
  unfold Chip.IO_RW_EXTENDED
  rw [argBytes_extended h0 hlt, ← hlen, List.take_length]
  simp only [argFn_extended, argWrite_extended, argIncr_extended, argAddr_extended, addr_and h,
    if_true]
  rfl

/-- Each transfer is of at most 511 blocks or bytes, and its length is what they make. -/
theorem nextTransfer_spec {len : Nat} (h : 0 < len) {blk : Bool} {bcount m : Nat}
    (ht : nextTransfer 64 len = (blk, bcount, m)) :
    0 < bcount ∧ bcount < 512 ∧ m ≤ len ∧ m = if blk then bcount * 64 else bcount := by
  have hdiv := Nat.div_mul_le_self len 64
  unfold nextTransfer at ht
  split_ifs at ht
  · obtain ⟨rfl, rfl, rfl⟩ : true = blk ∧ 511 = bcount ∧ 511 * 64 = m := by simpa using ht
    refine ⟨by omega, by omega, by omega, rfl⟩
  · obtain ⟨rfl, rfl, rfl⟩ : true = blk ∧ len / 64 = bcount ∧ len / 64 * 64 = m := by simpa using ht
    refine ⟨by omega, by omega, by omega, rfl⟩
  · obtain ⟨rfl, rfl, rfl⟩ : false = blk ∧ len = bcount ∧ len = m := by simpa using ht
    refine ⟨by omega, by omega, by omega, rfl⟩

/-- The transfers of `sdiorwext` join to one move through function 1. -/
theorem sdiorwext_eq {addr : BitVec 32} {a : List Byte} (h : addr.toNat + a.length ≤ 0x20000) :
    sdiorwext answer c Fn1 write a addr true =
      move (Chip.access answer Fn1 write) c (upFrom addr) a := by
  induction hn : a.length using Nat.strong_induction_on generalizing c a addr with
  | _ n ih =>
    unfold sdiorwext
    split
    · rename_i h0
      subst h0
      rfl
    · rename_i h0
      have hpos := List.length_pos_iff.mpr h0
      obtain ⟨⟨blk, bcount, m⟩, ht⟩ : ∃ t, nextTransfer (blockSize Fn1) a.length = t := ⟨_, rfl⟩
      obtain ⟨hb0, hb, hle, hm⟩ := nextTransfer_spec hpos ht
      have htake : (a.take m).length = m := by simp [hle]
      have hdrop : (a.drop m).length = a.length - m := List.length_drop
      have hm0 : 0 < m := by split at hm <;> omega
      have hnext : (addr + BitVec.ofNat 32 m).toNat = addr.toNat + m := upFrom_toNat (by omega)
      rw [ht]
      dsimp only
      rw [extended_eq (by omega) hb0 hb (htake.trans hm)]
      conv_rhs => rw [← List.take_append_drop m a, move_append, htake, upFrom_add]
      refine congrArg (andThen _) (funext fun d => ?_)
      rw [if_pos rfl]
      exact ih (a.drop m).length (by omega) (by omega) rfl

/-! ## The windows -/

theorem toNat_high (x : BitVec 32) : (x &&& ~~~ 0x7FFF#32).toNat = x.toNat / 0x8000 * 0x8000 := by
  have hshift : x &&& ~~~ 0x7FFF#32 = x >>> 15 <<< 15 := by
    apply BitVec.eq_of_getLsbD_eq
    intro i hi
    interval_cases i <;> simp
  have hlt := x.isLt
  rw [hshift, BitVec.toNat_shiftLeft, BitVec.toNat_ushiftRight, Nat.shiftRight_eq_div_pow,
    Nat.shiftLeft_eq]
  omega

theorem toNat_low (x : BitVec 32) : (x &&& 0x7FFF#32).toNat = x.toNat % 0x8000 := by
  rw [BitVec.toNat_and]
  exact Nat.and_two_pow_sub_one_eq_mod _ 15

/-- A window and an address in it are put together without a carry. -/
theorem toNat_high_or {x y : BitVec 32} {k : Nat} (hx : x.toNat = k * 0x8000)
    (hy : y.toNat < 0x8000) : (x ||| y).toNat = k * 0x8000 + y.toNat := by
  have hor := Nat.two_pow_add_eq_or_of_lt (i := 15) hy k
  rw [BitVec.toNat_or, hx, Nat.mul_comm k]
  exact hor.symm

theorem or_Sb32bit {x : BitVec 32} (h : x.toNat < 0x8000) : x ||| Sb32bit = x + Sb32bit := by
  have hx : Sb32bit.toNat = 1 * 0x8000 := rfl
  apply BitVec.eq_of_toNat_eq
  rw [BitVec.or_comm, toNat_high_or hx h, BitVec.toNat_add, hx]
  omega

/-- The single bytes of `sbrw` are a move through the window. -/
theorem sbrwBytes_eq {off : BitVec 32} {buf : List Byte} (h : off.toNat + buf.length ≤ 0x8000) :
    sbrwBytes answer write c off buf =
      move (Chip.access answer Fn1 write) c (upFrom (off + Sb32bit)) buf := by
  induction buf generalizing c off with
  | nil => rfl
  | cons b buf ih =>
    rw [List.length_cons] at h
    have hoff : off.toNat < 0x8000 := by omega
    have haddr : (off + Sb32bit).toNat < 0x20000 := by
      have hx : Sb32bit.toNat = 0x8000 := rfl
      rw [BitVec.toNat_add]
      omega
    have hnext : (off + BitVec.ofNat 32 1).toNat = off.toNat + 1 := upFrom_toNat (by omega)
    have hswap : off + Sb32bit + BitVec.ofNat 32 1 = off + BitVec.ofNat 32 1 + Sb32bit := by ac_rfl
    have hbyte : (if write then (sdiowr answer c Fn1 (off ||| Sb32bit) (b.setWidth 32), b)
        else sdiord answer c Fn1 (off ||| Sb32bit)) =
          c.access answer Fn1 write (off + Sb32bit) b := by
      rw [or_Sb32bit hoff]
      cases write with
      | false => rw [if_neg Bool.false_ne_true, sdiord_eq haddr b]
      | true =>
        have hb : (b.setWidth 32).setWidth 8 = b := by simp
        simp only [if_true]
        rw [sdiowr_eq haddr, hb, access_write]
    rw [move_cons, upFrom_zero, upFrom_add, hswap]
    simp only [sbrwBytes]
    have hrest : (off + BitVec.ofNat 32 1).toNat + buf.length ≤ 0x8000 := by
      rw [hnext]
      omega
    rw [hbyte]
    refine congrArg (andThen _) (funext fun d => ?_)
    exact ih hrest

/-- The words and the single bytes of `sbrw` join to one move through the window. -/
theorem sbrw_eq {off : BitVec 32} {buf : List Byte} (h : off.toNat + buf.length ≤ 0x8000) :
    sbrw answer c write buf off =
      move (Chip.access answer Fn1 write) c (upFrom (off + Sb32bit)) buf := by
  unfold sbrw
  split
  · rename_i h4
    set n := buf.length / 4 * 4 with hn
    have htake : (buf.take n).length = n := by
      rw [List.length_take]
      omega
    have hoff : off.toNat < 0x8000 := by omega
    have hbase : (off + Sb32bit).toNat = off.toNat + 0x8000 := by
      have hx : Sb32bit.toNat = 0x8000 := rfl
      rw [BitVec.toNat_add, hx]
      omega
    have hnext : (off + BitVec.ofNat 32 n).toNat = off.toNat + n := upFrom_toNat (by omega)
    have hswap : off + Sb32bit + BitVec.ofNat 32 n = off + BitVec.ofNat 32 n + Sb32bit := by ac_rfl
    dsimp only
    rw [or_Sb32bit hoff, sdiorwext_eq (by omega)]
    conv_rhs => rw [← List.take_append_drop n buf, move_append, htake, upFrom_add, hswap]
    refine congrArg (andThen _) (funext fun d => ?_)
    apply sbrwBytes_eq
    rw [List.length_drop]
    omega
  · exact sbrwBytes_eq h

/-- A register of function 1 is written. -/
theorem cfgw_eq {off val : BitVec 32} (h : 0x10000 ≤ off.toNat) (hlt : off.toNat < 0x20000) :
    cfgw answer c off val =
      { c with
        regs := Function.update c.regs Fn1
          (Function.update (c.regs Fn1) off (val.setWidth 8)) } := by
  unfold cfgw
  rw [sdiowr_eq hlt]
  unfold Chip.access
  rw [if_neg (by omega)]
  rfl

/-- `sbwindow` chooses the window of the address, and changes nothing else. -/
theorem sbwindow_spec (off : BitVec 32) :
    (sbwindow answer c off).window = off &&& ~~~ 0x7FFF#32 ∧
      (sbwindow answer c off).mem = c.mem ∧ (sbwindow answer c off).reads = c.reads := by
  unfold sbwindow
  dsimp only
  rw [cfgw_eq (by decide) (by decide), cfgw_eq (by decide) (by decide),
    cfgw_eq (by decide) (by decide)]
  refine ⟨?_, rfl, rfl⟩
  have h01 : Sbaddr ≠ Sbaddr + 1 := by decide
  have h02 : Sbaddr ≠ Sbaddr + 2 := by decide
  have h12 : Sbaddr + 1 ≠ Sbaddr + 2 := by decide
  unfold Chip.window
  simp only [Function.update_self, Function.update_of_ne h01, Function.update_of_ne h02,
    Function.update_of_ne h12]
  have hmask : Sbwsize - 1 = 0x7FFF#32 := rfl
  rw [hmask]
  apply BitVec.eq_of_getLsbD_eq
  intro i hi
  interval_cases i <;> simp

theorem reach_eq {off : BitVec 32} {i : Nat} (hw : c.window = off &&& ~~~ 0x7FFF#32)
    (hi : off.toNat % 0x8000 + i < 0x8000) :
    c.reach (upFrom ((off &&& 0x7FFF#32) + Sb32bit) i) = upFrom off i := by
  have hlt := off.isLt
  have hx : Sb32bit.toNat = 0x8000 := rfl
  have hbase : ((off &&& 0x7FFF#32) + Sb32bit).toNat = off.toNat % 0x8000 + 0x8000 := by
    rw [BitVec.toNat_add, toNat_low, hx]
    omega
  have hlow : (upFrom ((off &&& 0x7FFF#32) + Sb32bit) i &&& 0x7FFF#32).toNat =
      off.toNat % 0x8000 + i := by
    rw [toNat_low, upFrom_toNat (by omega), hbase]
    omega
  apply BitVec.eq_of_toNat_eq
  unfold Chip.reach
  rw [hw, BitVec.and_assoc, BitVec.and_self, toNat_high_or (toNat_high off) (by omega), hlow,
    upFrom_toNat (by omega)]
  omega

/-- In its window, a move through function 1 is a move through the backplane. -/
theorem move_window {off : BitVec 32} {buf : List Byte} (hw : c.window = off &&& ~~~ 0x7FFF#32)
    (h : off.toNat % 0x8000 + buf.length ≤ 0x8000) :
    move (Chip.access answer Fn1 write) c (upFrom ((off &&& 0x7FFF#32) + Sb32bit)) buf =
      move (Chip.touch answer write) c (upFrom off) buf := by
  have hx : Sb32bit.toNat = 0x8000 := rfl
  have hbase : ((off &&& 0x7FFF#32) + Sb32bit).toNat = off.toNat % 0x8000 + 0x8000 := by
    rw [BitVec.toNat_add, toNat_low, hx]
    omega
  refine (move_congr (fun d => d.window = off &&& ~~~ 0x7FFF#32) hw ?_).1
  intro d b i hi hd
  have hacc : d.access answer Fn1 write (upFrom ((off &&& 0x7FFF#32) + Sb32bit) i) b =
      d.touch answer write (upFrom off i) b := by
    have hin := upFrom_toNat (a := (off &&& 0x7FFF#32) + Sb32bit) (i := i) (by omega)
    unfold Chip.access
    rw [if_pos ⟨rfl, by omega, by omega⟩, reach_eq hd (by omega)]
  refine ⟨hacc, ?_⟩
  rw [hacc, ← hd]
  unfold Chip.touch
  cases write <;> rfl

/-! ## Copies -/

/-- The buffer was written to the backplane from `off` on. -/
structure Stored (c d : Chip) (off : BitVec 32) (buf : List Byte) : Prop where
  mem : d.mem = store c.mem (upFrom off) buf
  reads : d.reads = c.reads

/-- The bytes were read from the backplane from `off` on. -/
structure Fetched (answer : Answer) (c d : Chip) (off : BitVec 32) (got : List Byte) : Prop where
  mem : d.mem = c.mem
  reads : d.reads = c.reads ++ got.mapIdx fun i v => (upFrom off i, v)
  truth : answer = honest → got = (List.range got.length).map fun i => c.mem (upFrom off i)

theorem Stored.append {e : Chip} {off : BitVec 32} {xs ys : List Byte} (h : Stored c d off xs)
    (h' : Stored d e (off + BitVec.ofNat 32 xs.length) ys) : Stored c e off (xs ++ ys) := by
  constructor
  · rw [store_append, upFrom_add, h'.mem, h.mem]
  · rw [h'.reads, h.reads]

theorem Fetched.append {e : Chip} {off : BitVec 32} {xs ys : List Byte}
    (h : Fetched answer c d off xs)
    (h' : Fetched answer d e (off + BitVec.ofNat 32 xs.length) ys) :
    Fetched answer c e off (xs ++ ys) := by
  have hshift : ∀ i, upFrom off (i + xs.length) = upFrom (off + BitVec.ofNat 32 xs.length) i := by
    intro i
    rw [← upFrom_add, Nat.add_comm]
  refine ⟨h'.mem.trans h.mem, ?_, ?_⟩
  · rw [h'.reads, h.reads, List.mapIdx_append, List.append_assoc]
    simp only [hshift]
  · intro hans
    have hx := h.truth hans
    have hy := h'.truth hans
    rw [h.mem] at hy
    rw [List.length_append, List.range_add, List.map_append, List.map_map, ← hx]
    conv_lhs => rw [hy]
    congr 1
    apply List.map_congr_left
    intro i hi
    rw [Function.comp_apply, Nat.add_comm, hshift]

/-- A copy in either direction, with the buffer after it. -/
def Copied (answer : Answer) (write : Bool) (c : Chip) (r : Chip × List Byte) (off : BitVec 32)
    (buf : List Byte) : Prop :=
  if write then Stored c r.1 off buf ∧ r.2 = buf
  else Fetched answer c r.1 off r.2 ∧ r.2.length = buf.length

theorem copied_nil (off : BitVec 32) : Copied answer write c (c, []) off [] := by
  unfold Copied
  split
  · exact ⟨⟨rfl, rfl⟩, rfl⟩
  · exact ⟨⟨rfl, by simp, fun _ => rfl⟩, rfl⟩

/-- Copies of two pieces are a copy of the whole. -/
theorem Copied.andThen {r : Chip × List Byte} {next : Chip → Chip × List Byte} {off : BitVec 32}
    {xs ys : List Byte} (h : Copied answer write c r off xs)
    (h' : Copied answer write r.1 (next r.1) (off + BitVec.ofNat 32 xs.length) ys) :
    Copied answer write c (transfers.andThen r next) off (xs ++ ys) := by
  unfold Copied transfers.andThen at *
  cases write with
  | true =>
    simp only [if_true] at *
    exact ⟨h.1.append h'.1, by rw [h.2, h'.2]⟩
  | false =>
    simp only [Bool.false_eq_true, if_false] at *
    rw [← h.2] at h'
    exact ⟨h.1.append h'.1, by rw [List.length_append, List.length_append, h.2, h'.2]⟩

/-- The registers of the chip play no part in a copy. -/
theorem Copied.of_same {r : Chip × List Byte} {off : BitVec 32} {buf : List Byte}
    (h : Copied answer write d r off buf) (hmem : d.mem = c.mem) (hreads : d.reads = c.reads) :
    Copied answer write c r off buf := by
  unfold Copied at *
  cases write with
  | true =>
    simp only [if_true] at *
    exact ⟨⟨hmem ▸ h.1.mem, hreads ▸ h.1.reads⟩, h.2⟩
  | false =>
    simp only [Bool.false_eq_true, if_false] at *
    exact ⟨⟨hmem ▸ h.1.mem, hreads ▸ h.1.reads, hmem ▸ h.1.truth⟩, h.2⟩

theorem copied_touch (off : BitVec 32) (b : Byte) :
    Copied answer write c ((c.touch answer write off b).1, [(c.touch answer write off b).2]) off
      [b] := by
  unfold Copied Chip.touch
  cases write with
  | true =>
    refine ⟨⟨?_, rfl⟩, rfl⟩
    simp [store, upFrom_zero]
  | false =>
    refine ⟨⟨rfl, ?_, ?_⟩, rfl⟩
    · simp [upFrom_zero]
    · rintro rfl
      simp [upFrom_zero, honest]

theorem copied_move (off : BitVec 32) (buf : List Byte) :
    Copied answer write c (move (Chip.touch answer write) c (upFrom off) buf) off buf := by
  induction buf generalizing c off with
  | nil => exact copied_nil off
  | cons b buf ih =>
    rw [move_cons, upFrom_add, upFrom_zero, ← List.singleton_append]
    exact (copied_touch off b).andThen (ih _)

/-! ## `sbmem` -/

theorem windowRest_eq (off : BitVec 32) : windowRest off = 0x8000 - off.toNat % 0x8000 := by
  have hlt := off.isLt
  have hround : (ROUNDUP off Sbwsize - off).toNat = (0x8000 - off.toNat % 0x8000) % 0x8000 := by
    have hs : Sbwsize.toNat = 0x8000 := rfl
    have hs1 : (Sbwsize - 1).toNat = 0x7FFF := rfl
    unfold ROUNDUP
    rw [BitVec.toNat_sub, BitVec.toNat_mul, BitVec.toNat_udiv, BitVec.toNat_add, hs, hs1]
    omega
  unfold windowRest
  dsimp only
  split
  · rename_i h
    rw [h] at hround
    have hs : Sbwsize.toNat = 0x8000 := rfl
    rw [hs]
    have h0 : (0 : BitVec 32).toNat = 0 := rfl
    omega
  · rename_i h
    have hne : (ROUNDUP off Sbwsize - off).toNat ≠ 0 := fun h0 => h (BitVec.eq_of_toNat_eq h0)
    omega

theorem sbmemLoop_nil (off : BitVec 32) {n : Nat} (hn : 0 < n) :
    sbmemLoop answer write c [] off n hn = (c, []) := by
  unfold sbmemLoop
  rw [dif_pos rfl]

/-- The windows of `sbmem` join to one copy. -/
theorem sbmemLoop_copied {buf : List Byte} {off : BitVec 32} {n : Nat} (hn : 0 < n)
    (h : n = 0x8000 - off.toNat % 0x8000) :
    Copied answer write c (sbmemLoop answer write c buf off n hn) off buf := by
  induction hl : buf.length using Nat.strong_induction_on generalizing c buf off n with
  | _ k ih =>
    have hlt := off.isLt
    unfold sbmemLoop
    split
    · rename_i h0
      subst h0
      exact copied_nil off
    · rename_i h0
      have hpos := List.length_pos_iff.mpr h0
      set m := min n buf.length with hm
      have htake : (buf.take m).length = m := by
        rw [List.length_take]
        omega
      have hlow : (off &&& (Sbwsize - 1)).toNat = off.toNat % 0x8000 := toNat_low off
      obtain ⟨hw, hmem, hreads⟩ := @sbwindow_spec answer c off
      dsimp only
      rw [sbrw_eq (by omega)]
      have hwin : Sbwsize - 1 = 0x7FFF#32 := rfl
      rw [hwin, move_window hw (by omega)]
      have hfirst : Copied answer write c
          (move (Chip.touch answer write) (sbwindow answer c off) (upFrom off) (buf.take m)) off
          (buf.take m) := (copied_move off _).of_same hmem hreads
      conv_rhs => rw [← List.take_append_drop m buf]
      apply hfirst.andThen
      rw [htake]
      by_cases hlast : buf.drop m = []
      · rw [hlast, sbmemLoop_nil]
        exact copied_nil _
      · -- The window was filled, and the next one starts at its beginning.
        have hlen : 0 < (buf.drop m).length := List.length_pos_iff.mpr hlast
        rw [List.length_drop] at hlen
        refine ih (buf.drop m).length ?_ Sbwsize_pos ?_ rfl
        · rw [List.length_drop]
          omega
        · have hs : Sbwsize.toNat = 0x8000 := rfl
          rw [hs, BitVec.toNat_add, BitVec.toNat_ofNat]
          omega

theorem sbmem_copied (off : BitVec 32) (buf : List Byte) :
    Copied answer write c (sbmem answer c write buf off) off buf :=
  sbmemLoop_copied _ (windowRest_eq off)

/-- `sbmem` writes each byte of the buffer to its place on the backplane and no
other byte, and it reads each byte of the buffer from there. -/
theorem sbmem_is_exact (c : Chip) (buf : List Byte) (off : BitVec 32)
    (h : off.toNat + buf.length ≤ 2 ^ 32) :
    (∀ i (hi : i < buf.length),
      (sbmem honest c true buf off).1.mem (off + BitVec.ofNat 32 i) = buf[i]) ∧
    (∀ a, (∀ i < buf.length, off + BitVec.ofNat 32 i ≠ a) →
      (sbmem honest c true buf off).1.mem a = c.mem a) ∧
    (sbmem honest c false buf off).1.mem = c.mem ∧
    (sbmem honest c false buf off).2 =
      (List.range buf.length).map fun i => c.mem (off + BitVec.ofNat 32 i) := by
  have hinj : ∀ i j, i < buf.length → j < buf.length → upFrom off i = upFrom off j → i = j :=
    fun i j hi hj => upFrom_inj (by omega) (by omega)
  have hwrite : Copied honest true c (sbmem honest c true buf off) off buf := sbmem_copied off buf
  have hread : Copied honest false c (sbmem honest c false buf off) off buf := sbmem_copied off buf
  obtain ⟨hstored, -⟩ := hwrite
  obtain ⟨hfetched, hlen⟩ := hread
  refine ⟨?_, ?_, hfetched.mem, ?_⟩
  · intro i hi
    rw [hstored.mem]
    exact store_at c.mem (upFrom off) buf hinj i hi
  · intro a ha
    rw [hstored.mem]
    exact store_other c.mem (upFrom off) buf ha
  · rw [hfetched.truth rfl, hlen]
    rfl

/-- A chip that holds nothing. -/
def blankChip : Chip := ⟨fun _ => 0, fun _ _ => 0, []⟩

/-- Five bytes that end in the next window. -/
theorem five_bytes_cross_a_window :
    (sbmem honest blankChip true [1, 2, 3, 4, 5] 0x17FFE).1.mem 0x18001 = 4 ∧
      (sbmem honest blankChip false [1, 2, 3, 4, 5] 0x17FFE).2 = [0, 0, 0, 0, 0] := by
  obtain ⟨hstored, -, -, hgot⟩ := sbmem_is_exact blankChip [1, 2, 3, 4, 5] 0x17FFE (by decide)
  exact ⟨hstored 3 (by decide), hgot⟩

end rpi_wifi.ether4330
