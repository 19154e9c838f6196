-- Two ways to a register of a core: the words of `cfgreadl` and `cfgwritel`, which take
-- the whole address of the register, and the buffers of `sbmem`, which take the part of
-- it inside the window. Bit 16 of the address tells the two ways apart.
import RpiWifi.CoreLaws

namespace rpi_wifi.ether4330

open transfers cores

variable {answer : Answer} {c : Chip} {write : Bool}

/-! ## A word of the backplane -/

/-- `p[0] | p[1] << 8 | p[2] << 16 | p[3] << 24`. -/
def get4 (p : List Byte) : BitVec 32 :=
  (byteAt p 0).setWidth 32 ||| (byteAt p 1).setWidth 32 <<< 8 ||| (byteAt p 2).setWidth 32 <<< 16 |||
    (byteAt p 3).setWidth 32 <<< 24

def cfgreadl (answer : Answer) (c : Chip) (fn off : BitVec 32) : Chip × BitVec 32 :=
  let r := sdiorwext answer c fn false [0, 0, 0, 0] (off ||| Sb32bit) true
  (r.1, get4 r.2)

/-- Behind the window of the core, `cfgwritel` leaves the chip that `sbmem` leaves, and
`cfgreadl` reads the bytes and the value that `sbmem` reads. -/
structure PathsAgree (answer : Answer) (c : Chip) (r o v : BitVec 32) : Prop where
  writes : cfgwritel answer (sbwindow answer c r) Fn1 (r + o) v =
    (sbmem answer c true (put4 v) (r + o)).1
  reads : ∀ buf, buf.length = 4 → cfgreadl answer (sbwindow answer c r) Fn1 (r + o) =
    ((sbmem answer c false buf (r + o)).1, get4 (sbmem answer c false buf (r + o)).2)

/-! ## Transfers of four bytes -/

theorem andThen_done {σ : Type} {β : Type} (r : σ × List β) :
    andThen r (fun s => (s, [])) = r := by
  simp [andThen]

/-- The argument of a transfer has 17 bits of the address. -/
theorem extendedArg_congr {fn a b : BitVec 32} {blk incr : Bool} {n : Nat}
    (h : a &&& 0x1FFFF = b &&& 0x1FFFF) :
    extendedArg fn write blk incr a n = extendedArg fn write blk incr b n := by
  unfold extendedArg
  rw [h]

/-- What is read does not depend on what the buffer held. -/
theorem move_read {fn : BitVec 32} {f : Nat → BitVec 32} {xs ys : List Byte}
    (h : xs.length = ys.length) :
    move (Chip.access answer fn false) c f xs = move (Chip.access answer fn false) c f ys := by
  induction xs generalizing c f ys with
  | nil => rw [List.length_eq_zero_iff.mp h.symm]
  | cons x xs ih =>
    cases ys with
    | nil => cases h
    | cons y ys =>
      simp only [move]
      rw [access_read fn (f 0) x y, ih (Nat.succ.inj h)]

/-- Four bytes are one transfer. -/
theorem sdiorwext_four {a : List Byte} (addr : BitVec 32) (h : a.length = 4) :
    sdiorwext answer c Fn1 write a addr true =
      c.IO_RW_EXTENDED answer (extendedArg Fn1 write false true addr 4) a := by
  have hne : a ≠ [] := by
    rintro rfl
    cases h
  have hnext : nextTransfer (blockSize Fn1) 4 = (false, 4, 4) := rfl
  have hdrop : a.drop 4 = [] := List.drop_eq_nil_iff.mpr h.le
  have hend : ∀ d, sdiorwext answer d Fn1 write ([] : List Byte) (addr + BitVec.ofNat 32 4) true =
      (d, []) := by
    intro d
    unfold sdiorwext
    rw [dif_pos rfl]
  conv_lhs => unfold sdiorwext
  rw [dif_neg hne, h, hnext]
  dsimp only
  rw [hdrop, List.take_of_length_le h.le, if_pos rfl, funext hend, andThen_done]

/-- Four bytes in one window are one transfer of `sbmem`. -/
theorem sbmem_four {buf : List Byte} {off : BitVec 32} (h : buf.length = 4)
    (h4 : off.toNat % 4 = 0) :
    sbmem answer c write buf off =
      sdiorwext answer (sbwindow answer c off) Fn1 write buf (off &&& 0x7FFF#32 ||| Sb32bit)
        true := by
  have hne : buf ≠ [] := by
    rintro rfl
    cases h
  have hmin : min (windowRest off) buf.length = 4 := by
    rw [windowRest_eq, h]
    omega
  have hdrop : buf.drop 4 = [] := List.drop_eq_nil_iff.mpr h.le
  have hwin : Sbwsize - 1 = 0x7FFF#32 := rfl
  have hrw : ∀ d, sbrw answer d write buf (off &&& 0x7FFF#32) =
      sdiorwext answer d Fn1 write buf (off &&& 0x7FFF#32 ||| Sb32bit) true := by
    intro d
    unfold sbrw
    rw [if_pos h.ge, h]
    dsimp only
    rw [hdrop, List.take_of_length_le h.le]
    exact andThen_done _
  unfold sbmem sbmemLoop
  rw [dif_neg hne]
  dsimp only
  rw [hmin, hdrop, List.take_of_length_le h.le, hwin, hrw]
  rw [funext fun d => sbmemLoop_nil _ _]
  exact andThen_done _

/-! ## The address of a register -/

section address

variable {r o : BitVec 32}

theorem toNat_page (h : r &&& 0xFFF = 0) : r.toNat % 0x1000 = 0 := by
  have hand : r.toNat &&& 2 ^ 12 - 1 = r.toNat % 2 ^ 12 := Nat.and_two_pow_sub_one_eq_mod _ 12
  have h0 := congrArg BitVec.toNat h
  rw [BitVec.toNat_and] at h0
  exact hand.symm.trans h0

/-- A register lies in the page of its core. -/
theorem toNat_register (hr : r &&& 0xFFF = 0) (ho : o.toNat < 0x1000) :
    (r + o).toNat = r.toNat + o.toNat := by
  have hpage := toNat_page hr
  have hlt := r.isLt
  rw [BitVec.toNat_add]
  omega

theorem high_register (hr : r &&& 0xFFF = 0) (ho : o.toNat < 0x1000) :
    (r + o) &&& ~~~ 0x7FFF#32 = r &&& ~~~ 0x7FFF#32 := by
  have hpage := toNat_page hr
  apply BitVec.eq_of_toNat_eq
  rw [toNat_high, toNat_high, toNat_register hr ho]
  omega

/-- The core and its register have the same window. -/
theorem sbwindow_register (hr : r &&& 0xFFF = 0) (ho : o.toNat < 0x1000) :
    sbwindow answer c (r + o) = sbwindow answer c r := by
  have hwin : ~~~ (Sbwsize - 1) = ~~~ 0x7FFF#32 := rfl
  unfold sbwindow
  rw [hwin, high_register hr ho]

theorem bit_register (hr : r &&& 0xFFF = 0) (ho : o.toNat < 0x1000) :
    (r + o).getLsbD 16 = r.getLsbD 16 := by
  have hpage := toNat_page hr
  unfold BitVec.getLsbD
  rw [toNat_register hr ho, Nat.testBit_eq_decide_div_mod_eq, Nat.testBit_eq_decide_div_mod_eq]
  congr 2
  omega

/-- With bit 16 clear, the 17 bits of the address are those of its place in the window. -/
theorem address_eq {x : BitVec 32} (h : x.getLsbD 16 = false) :
    (x ||| Sb32bit) &&& 0x1FFFF = (x &&& 0x7FFF#32 ||| Sb32bit) &&& 0x1FFFF := by
  have h16 : x[16] = false := h
  apply BitVec.eq_of_getLsbD_eq
  intro i hi
  simp only [Sb32bit]
  interval_cases i <;> simp [h16]

/-- With bit 16 set, they lie behind the backplane. -/
theorem address_ge {x : BitVec 32} (h : x.getLsbD 16 = true) :
    0x10000 ≤ ((x ||| Sb32bit) &&& 0x1FFFF).toNat := by
  have h16 : ((x ||| Sb32bit) &&& 0x1FFFF).getLsbD 16 = true := by
    simp [h, Sb32bit]
  exact Nat.ge_two_pow_of_testBit h16

end address

/-! ## The law of the two ways -/

/-- Behind the first 64 KB of function 1 nothing of the backplane is read. -/
theorem extended_behind {addr : BitVec 32} {a : List Byte} (h : a.length = 4)
    (hge : 0x10000 ≤ (addr &&& 0x1FFFF).toNat) :
    (c.IO_RW_EXTENDED answer (extendedArg Fn1 false false true addr 4) a).1.reads = c.reads := by
  have hlt : (addr &&& 0x1FFFF).toNat ≤ 0x1FFFF := by
    rw [BitVec.toNat_and]
    exact Nat.and_le_right
  unfold Chip.IO_RW_EXTENDED
  simp only [argFn_extended, argWrite_extended, argIncr_extended, argAddr_extended, if_true]
  rw [argBytes_extended (by decide) (by decide)]
  have hsame : ∀ (d : Chip) (b : Byte),
      ∀ i < (a.take (if false then 4 * 64 else 4)).length, d.reads = c.reads →
        d.access answer Fn1 false ((addr &&& 0x1FFFF) + BitVec.ofNat 32 i) b =
          d.access answer Fn1 false ((addr &&& 0x1FFFF) + BitVec.ofNat 32 i) b ∧
        (d.access answer Fn1 false ((addr &&& 0x1FFFF) + BitVec.ofNat 32 i) b).1.reads =
          c.reads := by
    intro d b i hi hd
    have hi4 : i < 4 := by
      rw [List.length_take] at hi
      simp only [Bool.false_eq_true, if_false] at hi
      omega
    have hfar := upFrom_toNat (a := addr &&& 0x1FFFF) (i := i) (by omega)
    unfold upFrom at hfar
    refine ⟨rfl, ?_⟩
    unfold Chip.access
    rw [if_neg (by omega)]
    exact hd
  exact (move_congr (fun d : Chip => d.reads = c.reads) rfl hsame).2

theorem paths_agree_iff (answer : Answer) (c : Chip) {r o : BitVec 32} (v : BitVec 32)
    (hr : r &&& 0xFFF = 0) (ho : o.toNat < 0x1000) (h4 : o.toNat % 4 = 0) :
    PathsAgree answer c r o v ↔ r.getLsbD 16 = false := by
  have hword : (r + o).toNat % 4 = 0 := by
    have hpage := toNat_page hr
    rw [toNat_register hr ho]
    omega
  have hbit := bit_register hr ho
  constructor
  · rintro ⟨-, hreads⟩
    by_contra hset
    rw [Bool.not_eq_false, ← hbit] at hset
    have hcopied : Copied answer false c (sbmem answer c false [0, 0, 0, 0] (r + o)) (r + o)
        [0, 0, 0, 0] := sbmem_copied _ _
    obtain ⟨hfetched, hlen⟩ := hcopied
    obtain ⟨-, -, hwindow⟩ := @sbwindow_spec answer c r
    have h := congrArg (fun q => q.1.reads.length) (hreads [0, 0, 0, 0] rfl)
    dsimp only [cfgreadl] at h
    rw [sdiorwext_four _ rfl, extended_behind rfl (address_ge hset), hfetched.reads, hwindow,
      List.length_append, List.length_mapIdx, hlen] at h
    simp at h
  · intro hclear
    rw [← hbit] at hclear
    have hway : ∀ {write : Bool} {a : List Byte}, a.length = 4 →
        sdiorwext answer (sbwindow answer c r) Fn1 write a (r + o ||| Sb32bit) true =
          sbmem answer c write a (r + o) := by
      intro write a ha
      rw [sbmem_four ha hword, sbwindow_register hr ho, sdiorwext_four _ ha, sdiorwext_four _ ha,
        extendedArg_congr (address_eq hclear)]
    constructor
    · unfold cfgwritel
      rw [hway rfl]
    · intro buf hbuf
      have hsame : sbmem answer c false buf (r + o) = sbmem answer c false [0, 0, 0, 0] (r + o) := by
        rw [sbmem_four hbuf hword, sbmem_four rfl hword, sdiorwext_four _ hbuf,
          sdiorwext_four _ rfl]
        unfold Chip.IO_RW_EXTENDED
        simp only [argFn_extended, argWrite_extended]
        exact move_read (by simp [hbuf])
      unfold cfgreadl
      rw [hway rfl, hsame]

/-- For a core in a page of 4 KB, as `corescan` finds it, and each register of it, the two
ways agree exactly when bit 16 of the core's address is clear. -/
theorem the_two_ways_agree_iff (answer : Answer) (c : Chip) (r o v : BitVec 32)
    (hr : r &&& 0xFFF = 0) (ho : o.toNat < 0x1000) (h4 : o.toNat % 4 = 0) :
    PathsAgree answer c r o v ↔ r.getLsbD 16 = false :=
  paths_agree_iff answer c v hr ho h4

/-- A register of the chip common core at its usual address. -/
theorem the_two_ways_agree_at_a_core : PathsAgree honest blankChip 0x18000000 0x58 1 := by
  have hiff := the_two_ways_agree_iff honest blankChip 0x18000000 0x58 1 (by decide) (by decide)
    (by decide)
  exact hiff.mpr (by decide)

/-- A table with a chip common core at an address with bit 16 set. -/
def farTable : List Byte := [0x01, 0x00, 0x08, 0, 0x01, 0, 0, 0, 0x05, 0x00, 0x01, 0x18, 0x0F]

/-- A chip with that table. -/
def farChip : Chip := { blankChip with mem := fun a => farTable.getD (a - 0x18109000).toNat 0 }

/-- The core is found, and the two ways to its registers lead to different places. -/
theorem the_two_ways_part :
    (corescan honest (some fun _ => 0) farChip noCores 0x18109000).2.ctl.chipcommon = 0x18010000 ∧
      ¬ PathsAgree honest farChip 0x18010000 0x58 0 := by
  have htable := tableAt_honest (fun _ => 0) farChip 0x18109000 (by decide)
  constructor
  · rw [corescan_eq, htable]
    decide +kernel
  · rw [paths_agree_iff honest farChip 0 (by decide) (by decide) (by decide)]
    decide

end rpi_wifi.ether4330
