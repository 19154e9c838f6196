-- The transfers of `sdiorwext`, each as the card and the controller are told of it: the
-- argument of the command, and the register of the controller with a block size and
-- a block count. Both describe the bytes that are given to `emmcio`.
import RpiWifi.BackplaneLaws

namespace rpi_wifi.ether4330

open transfers

variable {answer : Answer} {fn addr : BitVec 32} {write incr : Bool} {a len : Nat}

/-! ## The rounds -/

/-- One round of the loop of `sdiorwext`: where it stands in the buffer, the register that
`emmciosetup` writes, the argument of the command, and the bytes that `emmcio` is given. -/
structure Round where
  a : Nat
  Blksizecnt : BitVec 32
  arg : BitVec 32
  m : Nat
  deriving DecidableEq

def emmciosetup (bsize bcount : Nat) : BitVec 32 :=
  BitVec.ofNat 32 bcount <<< 16 ||| BitVec.ofNat 32 bsize

/-- The round for the bytes from `a` on, of which there are `len`. -/
def nextRound (fn : BitVec 32) (write incr : Bool) (a len : Nat) (addr : BitVec 32) : Round :=
  let bsize := blockSize fn
  let t := nextTransfer bsize len
  { a
    Blksizecnt := if t.1 then emmciosetup bsize t.2.1 else emmciosetup t.2.1 1
    arg := extendedArg fn write t.1 incr addr t.2.1
    m := t.2.2 }

/-- The rounds of `sdiorwext`. -/
def rounds (fn : BitVec 32) (write incr : Bool) (a len : Nat) (addr : BitVec 32) : List Round :=
  if _h : len = 0 then []
  else
    let r := nextRound fn write incr a len addr
    r :: rounds fn write incr (a + r.m) (len - r.m)
      (if incr then addr + BitVec.ofNat 32 r.m else addr)
termination_by len
decreasing_by
  have hm : 0 < (nextRound fn write incr a len addr).m :=
    nextTransfer_pos (blockSize_pos fn) (Nat.pos_of_ne_zero _h)
  omega

theorem rounds_zero : rounds fn write incr a 0 addr = [] := by
  unfold rounds
  exact dif_pos rfl

theorem rounds_pos (h : len ≠ 0) :
    rounds fn write incr a len addr =
      let r := nextRound fn write incr a len addr
      r :: rounds fn write incr (a + r.m) (len - r.m)
        (if incr then addr + BitVec.ofNat 32 r.m else addr) := by
  conv_lhs => unfold rounds
  exact dif_neg h

/-- The chip sees the commands of the rounds, each with its bytes of the buffer. -/
def runRounds (answer : Answer) (buf : List Byte) (c : Chip) : List Round → Chip × List Byte
  | [] => (c, [])
  | r :: rs =>
    andThen (c.IO_RW_EXTENDED answer r.arg ((buf.drop r.a).take r.m)) fun c =>
      runRounds answer buf c rs

/-! ## One round -/

/-- The registers of the controller. -/
def blkSize (Blksizecnt : BitVec 32) : Nat := (Blksizecnt &&& 0xFFFF).toNat

def blkCount (Blksizecnt : BitVec 32) : Nat := (Blksizecnt >>> 16).toNat

/-- A round for `len` bytes from `a` on that moves the bytes it is told to: the card and the
controller count the same bytes, and the card starts at the right address. -/
structure Exact (fn addr : BitVec 32) (write incr : Bool) (r : Round) : Prop where
  mode : argBlk r.arg = true ∧ (∃ n, 1 ≤ n ∧ n ≤ 511 ∧ (r.arg &&& 0x1FF).toNat = n ∧
      r.m = n * blockSize fn) ∨
    argBlk r.arg = false ∧ 1 ≤ r.m ∧ r.m ≤ blockSize fn
  bytes : argBytes r.arg = r.m
  product : blkSize r.Blksizecnt * blkCount r.Blksizecnt = r.m
  address : (argAddr r.arg).toNat = (addr.toNat + if incr then r.a else 0) % 2 ^ 17
  fields : argFn r.arg = fn ∧ argWrite r.arg = write ∧ argIncr r.arg = incr

theorem blockSize_le (fn : BitVec 32) : blockSize fn ≤ 512 := by
  unfold blockSize
  split <;> decide

/-- The transfers: whole blocks of which there are fewer than 512, or a rest of a block. -/
theorem nextTransfer_cases {bsize : Nat} (len : Nat) (hb : 0 < bsize) :
    (∃ n, 1 ≤ n ∧ n ≤ 511 ∧ n * bsize ≤ len ∧ nextTransfer bsize len = (true, n, n * bsize)) ∨
      len ≤ bsize ∧ nextTransfer bsize len = (false, len, len) := by
  unfold nextTransfer
  split_ifs with hlong hmore
  · exact Or.inl ⟨511, by decide, le_rfl, hlong, rfl⟩
  · refine Or.inl ⟨len / bsize, Nat.div_pos hmore.le hb, ?_, Nat.div_mul_le_self _ _, rfl⟩
    have hlt : len / bsize < 511 := (Nat.div_lt_iff_lt_mul hb).mpr (Nat.lt_of_not_le hlong)
    omega
  · exact Or.inr ⟨Nat.le_of_not_lt hmore, rfl⟩

theorem blk_registers (bsize bcount : Nat) (hs : bsize < 2 ^ 16) (hc : bcount < 2 ^ 16) :
    blkSize (emmciosetup bsize bcount) = bsize ∧ blkCount (emmciosetup bsize bcount) = bcount := by
  have hor : (emmciosetup bsize bcount).toNat = 2 ^ 16 * bcount + bsize := by
    rw [emmciosetup, BitVec.toNat_or, BitVec.toNat_shiftLeft, BitVec.toNat_ofNat,
      BitVec.toNat_ofNat, Nat.mod_eq_of_lt (by omega), Nat.mod_eq_of_lt (by omega),
      Nat.shiftLeft_eq, Nat.mod_eq_of_lt (by omega), Nat.mul_comm]
    exact (Nat.two_pow_add_eq_or_of_lt hs bcount).symm
  have hmask : (emmciosetup bsize bcount).toNat &&& 2 ^ 16 - 1 =
      (emmciosetup bsize bcount).toNat % 2 ^ 16 := Nat.and_two_pow_sub_one_eq_mod _ 16
  constructor
  · rw [blkSize, BitVec.toNat_and]
    exact hmask.trans (by omega)
  · rw [blkCount, BitVec.toNat_ushiftRight, Nat.shiftRight_eq_div_pow]
    omega

theorem fn_and (h : fn.toNat < 8) : fn &&& 7 = fn := by
  have hmod : fn.toNat &&& 2 ^ 3 - 1 = fn.toNat % 2 ^ 3 := Nat.and_two_pow_sub_one_eq_mod _ 3
  apply BitVec.eq_of_toNat_eq
  rw [BitVec.toNat_and]
  exact hmod.trans (by omega)

theorem addr_toNat (x : BitVec 32) : (x &&& 0x1FFFF).toNat = x.toNat % 2 ^ 17 := by
  rw [BitVec.toNat_and]
  exact Nat.and_two_pow_sub_one_eq_mod _ 17

/-- The round that stands at `a` in the buffer, at the address of the first byte or `a` behind
it. -/
theorem nextRound_exact (hfn : fn.toNat < 8) (hlen : len ≠ 0) {addr₀ : BitVec 32}
    (haddr : addr = if incr then addr₀ + BitVec.ofNat 32 a else addr₀) :
    Exact fn addr₀ write incr (nextRound fn write incr a len addr) := by
  have hpos := blockSize_pos fn
  have hsize := blockSize_le fn
  have hfields : ∀ blk bcount, argFn (extendedArg fn write blk incr addr bcount) = fn := by
    intro blk bcount
    rw [argFn_extendedArg, fn_and hfn]
  have haddress : ∀ blk bcount, (argAddr (extendedArg fn write blk incr addr bcount)).toNat =
      (addr₀.toNat + if incr then a else 0) % 2 ^ 17 := by
    intro blk bcount
    rw [argAddr_extended, addr_toNat, haddr]
    cases incr
    · simp
    · simp only [if_true, BitVec.toNat_add, BitVec.toNat_ofNat]
      omega
  rcases nextTransfer_cases len hpos with ⟨n, hn, hmany, -, ht⟩ | ⟨hle, ht⟩
  · have hcount : (extendedArg fn write true incr addr n &&& 0x1FF).toNat = n := by
      rw [count_extended _ _ _ _ _ (by omega), Nat.mod_eq_of_lt (by omega)]
    obtain ⟨hbsize, hbcount⟩ := blk_registers (blockSize fn) n (by omega) (by omega)
    unfold nextRound
    simp only [ht, if_true]
    refine ⟨Or.inl ⟨argBlk_extended _ _ _ _ _, n, hn, hmany, hcount, rfl⟩, ?_, ?_,
      haddress true n, hfields true n, argWrite_extended _ _ _ _ _, argIncr_extended _ _ _ _ _⟩
    · simp only [argBytes, argBlk_extended, hcount, hfields, if_true]
    · simp [hbsize, hbcount, Nat.mul_comm]
  · have hcount : (extendedArg fn write false incr addr len &&& 0x1FF).toNat = len % 512 :=
      count_extended _ _ _ _ _ (by omega)
    obtain ⟨hbsize, hbcount⟩ := blk_registers len 1 (by omega) (by decide)
    unfold nextRound
    simp only [ht, Bool.false_eq_true, if_false]
    refine ⟨Or.inr ⟨argBlk_extended _ _ _ _ _, Nat.pos_of_ne_zero hlen, hle⟩, ?_, ?_,
      haddress false len, hfields false len, argWrite_extended _ _ _ _ _,
      argIncr_extended _ _ _ _ _⟩
    · -- 512 bytes are counted by 0
      simp only [argBytes, argBlk_extended, hcount, Bool.false_eq_true, if_false]
      split <;> omega
    · simp [hbsize, hbcount]

theorem nextRound_le (fn addr : BitVec 32) (write incr : Bool) (a len : Nat) :
    (nextRound fn write incr a len addr).m ≤ len := by
  rcases nextTransfer_cases len (blockSize_pos fn) with ⟨n, -, -, hle, ht⟩ | ⟨-, ht⟩
  · simpa [nextRound, ht] using hle
  · simp [nextRound, ht]

/-! ## All rounds -/

theorem rounds_exact (hfn : fn.toNat < 8) {addr₀ : BitVec 32}
    (haddr : addr = if incr then addr₀ + BitVec.ofNat 32 a else addr₀) :
    ∀ r ∈ rounds fn write incr a len addr, Exact fn addr₀ write incr r := by
  induction hn : len using Nat.strong_induction_on generalizing a len addr with
  | _ n ih =>
    subst hn
    by_cases hlen : len = 0
    · subst hlen
      simp [rounds_zero]
    · have hpos : 0 < (nextRound fn write incr a len addr).m :=
        nextTransfer_pos (blockSize_pos fn) (Nat.pos_of_ne_zero hlen)
      rw [rounds_pos hlen]
      intro r hr
      rcases List.mem_cons.mp hr with rfl | hr
      · exact nextRound_exact hfn hlen haddr
      · refine ih _ (by omega) ?_ rfl r hr
        rw [haddr]
        cases incr
        · rfl
        · simp [BitVec.ofNat_add, BitVec.add_assoc]

theorem rounds_cover (fn addr : BitVec 32) (write incr : Bool) (a len : Nat) :
    (rounds fn write incr a len addr).flatMap (fun r => List.range' r.a r.m) =
      List.range' a len := by
  induction hn : len using Nat.strong_induction_on generalizing a len addr with
  | _ n ih =>
    subst hn
    by_cases hlen : len = 0
    · subst hlen
      simp [rounds_zero]
    · have hpos : 0 < (nextRound fn write incr a len addr).m :=
        nextTransfer_pos (blockSize_pos fn) (Nat.pos_of_ne_zero hlen)
      have hle := nextRound_le fn addr write incr a len
      have hstart : (nextRound fn write incr a len addr).a = a := rfl
      rw [rounds_pos hlen, List.flatMap_cons, ih _ (by omega) _ _ _ rfl, hstart,
        List.range'_append_1]
      congr 1
      omega

/-- On the chip, `sdiorwext` is what its rounds do. -/
theorem sdiorwext_eq_rounds (buf : List Byte) (c : Chip) (h : a ≤ buf.length) :
    sdiorwext answer c fn write (buf.drop a) addr incr =
      runRounds answer buf c (rounds fn write incr a (buf.length - a) addr) := by
  induction hn : buf.length - a using Nat.strong_induction_on generalizing a addr c with
  | _ n ih =>
    subst hn
    by_cases hlen : buf.length - a = 0
    · have hdrop : buf.drop a = [] := List.drop_eq_nil_of_le (by omega)
      rw [hlen, rounds_zero, hdrop, sdiorwext]
      rfl
    · have hdrop : buf.drop a ≠ [] := by simp; omega
      have hpos : 0 < (nextRound fn write incr a (buf.length - a) addr).m :=
        nextTransfer_pos (blockSize_pos fn) (Nat.pos_of_ne_zero hlen)
      have hle := nextRound_le fn addr write incr a (buf.length - a)
      have hm : (nextTransfer (blockSize fn) (buf.length - a)).2.2 =
        (nextRound fn write incr a (buf.length - a) addr).m := rfl
      rw [sdiorwext, dif_neg hdrop, rounds_pos hlen, runRounds]
      dsimp only
      rw [List.length_drop, hm]
      refine congrArg (andThen _) (funext fun d => ?_)
      rw [List.drop_drop, ih _ (by omega) _ (by omega) rfl]
      congr 2
      omega

theorem the_transfers_partition_the_buffer (fn addr : BitVec 32) (write incr : Bool) (len : Nat)
    (hfn : fn.toNat < 8) :
    (rounds fn write incr 0 len addr).flatMap (fun r => List.range' r.a r.m) = List.range len ∧
      ∀ r ∈ rounds fn write incr 0 len addr, Exact fn addr write incr r := by
  constructor
  · rw [rounds_cover, List.range_eq_range']
  · refine rounds_exact hfn ?_
    cases incr <;> simp

/-- A buffer of function 2 that takes the three kinds of transfers. -/
theorem a_long_buffer_takes_three_transfers :
    (rounds Fn2 true false 0 262756 0x8000).map (fun r => (r.a, r.m)) =
        [(0, 261632), (261632, 1024), (262656, 100)] ∧
      ∀ r ∈ rounds Fn2 true false 0 262756 0x8000, Exact Fn2 0x8000 true false r := by
  refine ⟨?_, (the_transfers_partition_the_buffer Fn2 0x8000 true false 262756 (by decide)).2⟩
  simp [rounds_pos, rounds_zero, nextRound, nextTransfer, blockSize]

end rpi_wifi.ether4330
