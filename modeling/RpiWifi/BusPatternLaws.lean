-- The law of writes over a bus with errors: what `sbmem` writes stays in the buffer's
-- place as long as each turn has its page, and a turn that moves a byte without it
-- is the only way out.
import RpiWifi.BusPattern

namespace rpi_wifi.ether4330.faulty

open transfers write_logs

variable (answer : Answer) (fails : Nat → Bool) {b : Bus}

/-! ## One write -/

/-- The bus after `k` commands. -/
def Bus.counted (b : Bus) (k : Nat) : Bus := { b with done := k }

theorem sdiowrTry_eq (arg : BitVec 32) (n : Nat) :
    sdiowrTry answer fails b arg n =
      (if (attempts fails b.done n).1 then
        (b.access answer (argFn arg) (argWrite arg) (argAddr arg) (arg.setWidth 8)).1
      else b).counted (attempts fails b.done n).2 := by
  induction n generalizing b with
  | zero => rfl
  | succ n ih =>
    unfold sdiowrTry attempts Bus.IO_RW_DIRECT
    by_cases h : fails b.done
    · have hbits : ¬ ((0xCF00 : BitVec 32) &&& 0xCF00 = 0) := by decide
      rw [if_pos h, if_pos h]
      dsimp only
      rw [if_neg hbits, ih]
      unfold Bus.next
      split <;> rfl
    · rw [if_neg h, if_neg h]
      dsimp only
      rw [response_ok, if_pos rfl, if_pos rfl]
      rfl

/-- A byte of function 1 is written if one of the ten attempts goes through. -/
theorem sdiowr_eq {addr data : BitVec 32} (h : addr.toNat < 0x20000) :
    sdiowr answer fails b Fn1 addr data =
      (if (attempts fails b.done 10).1 then (b.access answer Fn1 true addr (data.setWidth 8)).1
      else b).counted (attempts fails b.done 10).2 := by
  unfold sdiowr
  rw [writeArg_eq, sdiowrTry_eq]
  simp only [argWrite_extended, argFn_extended, argAddr_extended, addr_and h, data_extended]

/-! ## Moves -/

/-- The bus with its memory and its history. -/
def device : Device Bus (BitVec 32) Byte where
  mem := fun b => b.chip.mem
  withMem := fun b m => { b with chip := { b.chip with mem := m } }
  wrote := Bus.wrote
  mem_withMem := fun _ _ => rfl

/-- From `b` a call writes the places `as`. The page and the commands after it are `p`
and `k`. -/
structure Moves {γ : Type} (f : Bus → Bus × γ) (b : Bus) (as : List (BitVec 32)) (p : BitVec 32)
    (k : Nat) : Prop where
  page : page (f b).1.chip = p
  done : (f b).1.done = k
  writes : ∃ new, Replays device f b new ∧ new.map Prod.fst = as

theorem Moves.congr {γ : Type} {f g : Bus → Bus × γ} {as : List (BitVec 32)} {p : BitVec 32}
    {k : Nat} (hg : Moves g b as p k) (h : ∀ b, f b = g b) : Moves f b as p k := by
  obtain rfl : f = g := funext h
  exact hg

theorem moves_pure {γ : Type} (x : γ) :
    Moves (fun b => (b, x)) b [] (page b.chip) b.done :=
  ⟨rfl, rfl, [], ⟨(List.append_nil _).symm, fun _ => rfl⟩, rfl⟩

/-- One move behind the other one. -/
theorem Moves.bind {γ δ : Type} {f : Bus → Bus × γ} {g : γ → Bus → Bus × δ}
    {as as' : List (BitVec 32)} {p p' : BitVec 32} {k k' : Nat} (hf : Moves f b as p k)
    (hg : Moves (g (f b).2) (f b).1 as' p' k') :
    Moves (fun b => g (f b).2 (f b).1) b (as ++ as') p' k' := by
  obtain ⟨new, hnew, rfl⟩ := hf.writes
  obtain ⟨new', hnew', rfl⟩ := hg.writes
  exact ⟨hg.page, hg.done, new ++ new', hnew.bind hnew', List.map_append⟩

/-- What a call gives back plays no part. -/
theorem Moves.map {γ δ : Type} {f : Bus → Bus × γ} {as : List (BitVec 32)} {p : BitVec 32}
    {k : Nat} (hf : Moves f b as p k) (h : γ → δ) :
    Moves (fun b => ((f b).1, h (f b).2)) b as p k := by
  obtain ⟨new, hnew, hplaces⟩ := hf.writes
  refine ⟨hf.page, hf.done, new, ⟨hnew.logs, ?_⟩, hplaces⟩
  intro m
  rw [hnew.runs m]

theorem Moves.andThen {f next : Bus → Bus × List Byte} {as as' : List (BitVec 32)}
    {p p' : BitVec 32} {k k' : Nat} (hf : Moves f b as p k) (hg : Moves next (f b).1 as' p' k') :
    Moves (fun b => transfers.andThen (f b) next) b (as ++ as') p' k' :=
  hf.bind (g := fun xs b => ((next b).1, xs ++ (next b).2)) (hg.map _)

/-! ## Bytes in the window -/

theorem reach_place (c : Chip) (a : BitVec 32) : c.reach a = place (page c) a := rfl

theorem access_window {a : BitVec 32} (ha : inWindow Fn1 a) (x : Byte) :
    b.access answer Fn1 true a x =
      ({ b with
        chip := { b.chip with mem := Function.update b.chip.mem (place (page b.chip) a) x }
        wrote := b.wrote ++ [(place (page b.chip) a, x)] }, x) := by
  have hin : Fn1 = Fn1 ∧ 0x8000 ≤ a.toNat ∧ a.toNat < 0x10000 := ha
  unfold Bus.access Chip.access
  rw [if_pos hin, ← reach_place]
  simp [Chip.touch, ha]

theorem access_moves {a : BitVec 32} (ha : inWindow Fn1 a) (x : Byte) :
    Moves (fun b => b.access answer Fn1 true a x) b [place (page b.chip) a] (page b.chip)
      b.done := by
  apply Moves.congr _ fun b => access_window answer ha x
  exact ⟨rfl, rfl, [_], ⟨rfl, fun _ => rfl⟩, rfl⟩

/-- The number of commands plays no part in what is written. -/
theorem Moves.counted {γ : Type} {f : Bus → Bus × γ} {as : List (BitVec 32)} {p : BitVec 32}
    {k : Nat} (hf : Moves f b as p k) (next : Nat → Nat) :
    Moves (fun b => ((f b).1.counted (next b.done), (f b).2)) b as p (next b.done) := by
  obtain ⟨new, hnew, hplaces⟩ := hf.writes
  refine ⟨hf.page, rfl, new, ⟨hnew.logs, ?_⟩, hplaces⟩
  intro m
  rw [hnew.runs m]
  rfl

/-- A command may go through or not. -/
theorem Moves.ite {γ : Type} {f g : Bus → Bus × γ} {as : List (BitVec 32)} {p : BitVec 32}
    {k : Nat} {q : Nat → Bool} (hf : q b.done = true → Moves f b as p k)
    (hg : q b.done = false → Moves g b [] p k) :
    Moves (fun b => if q b.done then f b else g b) b (if q b.done then as else []) p k := by
  cases h : q b.done with
  | true =>
    obtain ⟨hpage, hdone, new, hnew, hplaces⟩ := hf h
    refine ⟨?_, ?_, new, hnew.congr ?_ ?_, hplaces⟩
    · simpa [h] using hpage
    · simpa [h] using hdone
    · simp [h]
    · exact fun m => if_pos h
  | false =>
    obtain ⟨hpage, hdone, new, hnew, hplaces⟩ := hg h
    refine ⟨?_, ?_, new, hnew.congr ?_ ?_, hplaces⟩
    · simpa [h] using hpage
    · simpa [h] using hdone
    · simp [h]
    · exact fun m => if_neg (ne_true_of_eq_false h)

/-- A byte that is written by the attempts of `sdiowr`. -/
theorem sdiowr_moves {γ : Type} {a : BitVec 32} (ha : inWindow Fn1 a) (x : Byte) (y : γ) :
    Moves (fun b => (sdiowr answer fails b Fn1 a (x.setWidth 32), y)) b
      (if (attempts fails b.done 10).1 then [place (page b.chip) a] else []) (page b.chip)
      (attempts fails b.done 10).2 := by
  have hx : (x.setWidth 32).setWidth 8 = x := by simp
  have haddr : a.toNat < 0x20000 := by
    have := ha.2
    omega
  have hstep := (Moves.ite (q := fun k => (attempts fails k 10).1)
    (fun _ => (access_moves answer (b := b) ha x).map fun _ => y)
    (fun _ => moves_pure y)).counted fun k => (attempts fails k 10).2
  refine hstep.congr fun b => ?_
  rw [sdiowr_eq answer fails haddr, hx]
  split <;> rfl

/-- A transfer in the window. -/
theorem move_moves {a : BitVec 32} {j : Nat} {xs : List Byte}
    (ha : ∀ i < xs.length, inWindow Fn1 (upFrom a (j + i))) :
    Moves (fun b => move (Bus.access answer Fn1 true) b (fun i => upFrom a (j + i)) xs) b
      ((List.range' j xs.length).map fun i => place (page b.chip) (upFrom a i)) (page b.chip)
      b.done := by
  induction xs generalizing j b with
  | nil => exact moves_pure []
  | cons x xs ih =>
    have hfirst := (access_moves answer (b := b) (ha 0 (by simp)) x).map fun y => [y]
    have hshift : ∀ i, j + (1 + i) = j + 1 + i := fun i => by omega
    have hrest := ih (b := (b.access answer Fn1 true (upFrom a (j + 0)) x).1) (j := j + 1) ?_
    · rw [hfirst.page, hfirst.done] at hrest
      refine (hfirst.andThen hrest).congr fun b => ?_
      rw [move_cons]
      simp only [hshift]
    · intro i hi
      rw [← hshift]
      exact ha (1 + i) (by rw [List.length_cons]; omega)

/-- A transfer may fail, and then it moves nothing. -/
theorem extended_moves {a : BitVec 32} {j : Nat} {blk : Bool} {bcount : Nat} {xs : List Byte}
    (h : (upFrom a j).toNat < 0x20000) (h0 : 0 < bcount) (hlt : bcount < 512)
    (hlen : xs.length = if blk then bcount * 64 else bcount)
    (ha : ∀ i < xs.length, inWindow Fn1 (upFrom a (j + i))) :
    Moves
      (fun b => b.IO_RW_EXTENDED answer fails
        (extendedArg Fn1 true blk true (upFrom a j) bcount) xs) b
      ((if fails b.done then [] else List.range' j xs.length).map
        fun i => place (page b.chip) (upFrom a i)) (page b.chip) (b.done + 1) := by
  have hstep := (Moves.ite (q := fun k => !fails k)
    (fun _ => move_moves answer (b := b) ha) (fun _ => moves_pure xs)).counted (· + 1)
  have hshift : (fun i => upFrom a j + BitVec.ofNat 32 i) = fun i => upFrom a (j + i) :=
    (upFrom_add a j).symm
  have hplaces : ∀ (q : Bool) (g : Nat → BitVec 32),
      (if !q then (List.range' j xs.length).map g else []) =
        (if q then [] else List.range' j xs.length).map g := by
    intro q g
    cases q <;> rfl
  rw [hplaces] at hstep
  refine hstep.congr fun b => ?_
  unfold Bus.IO_RW_EXTENDED
  rw [argBytes_extended h0 hlt, ← hlen, List.take_length]
  simp only [argFn_extended, argWrite_extended, argIncr_extended, argAddr_extended, addr_and h,
    if_true, hshift]
  have hdone := (move_moves answer (b := b) ha).done
  cases fails b.done with
  | true => rfl
  | false => simp [Bus.next, Bus.counted, hdone]

/-- The transfers of a buffer in the window. -/
theorem sdiorwext_moves {a : BitVec 32} {j : Nat} {xs : List Byte} (hlo : 0x8000 ≤ a.toNat)
    (hhi : a.toNat + j + xs.length ≤ 0x10000) :
    Moves (fun b => sdiorwext answer fails b Fn1 true xs (upFrom a j) true) b
      ((transferred fails b.done j xs.length).1.map fun i => place (page b.chip) (upFrom a i))
      (page b.chip) (transferred fails b.done j xs.length).2 := by
  induction hn : xs.length using Nat.strong_induction_on generalizing b j xs with
  | _ n ih =>
    subst hn
    by_cases h : xs = []
    · subst h
      unfold transferred
      refine (moves_pure []).congr fun b => ?_
      unfold sdiorwext
      exact dif_pos rfl
    · have hpos := List.length_pos_iff.mpr h
      obtain ⟨⟨blk, bcount, m⟩, ht⟩ : ∃ t, nextTransfer 64 xs.length = t := ⟨_, rfl⟩
      obtain ⟨hb0, hb, hle, hm⟩ := nextTransfer_spec hpos ht
      have htake : (xs.take m).length = m := by
        rw [List.length_take]
        exact Nat.min_eq_left hle
      have hdrop : (xs.drop m).length = xs.length - m := List.length_drop
      have hm0 : 0 < m := by split at hm <;> omega
      have haddr : (upFrom a j).toNat = a.toNat + j := upFrom_toNat (by omega)
      have hin : ∀ i < (xs.take m).length, inWindow Fn1 (upFrom a (j + i)) := by
        intro i hi
        have hat := upFrom_toNat (a := a) (i := j + i) (by omega)
        exact ⟨rfl, by omega, by omega⟩
      have hfirst := extended_moves answer fails (b := b)
        (by omega) hb0 hb (htake.trans hm) hin
      have hrest := ih (xs.drop m).length (by omega) (j := j + m)
        (b := (b.IO_RW_EXTENDED answer fails
          (extendedArg Fn1 true blk true (upFrom a j) bcount) (xs.take m)).1) (by omega) rfl
      rw [hfirst.page, hfirst.done, hdrop] at hrest
      have hjoin := hfirst.andThen hrest
      rw [htake, ← List.map_append] at hjoin
      unfold transferred
      rw [dif_neg hpos.ne', ht]
      refine hjoin.congr fun b => ?_
      conv_lhs => unfold sdiorwext
      rw [dif_neg h, blockSize_Fn1, ht]
      dsimp only
      rw [if_pos rfl]
      have hnext : upFrom a j + BitVec.ofNat 32 m = upFrom a (j + m) :=
        (congrFun (upFrom_add a j) m).symm
      rw [hnext]

/-- The address in function 1 of the byte `i` behind the place `a` of the window. -/
theorem window_address {a : BitVec 32} {i : Nat} (h : a.toNat + i < 0x8000) :
    upFrom a i ||| Sb32bit = upFrom (a + Sb32bit) i ∧
      inWindow Fn1 (upFrom (a + Sb32bit) i) := by
  have hx : Sb32bit.toNat = 0x8000 := rfl
  have hbase : (a + Sb32bit).toNat = a.toNat + 0x8000 := by
    rw [BitVec.toNat_add, hx]
    omega
  have hlow : (upFrom a i).toNat = a.toNat + i := upFrom_toNat (by omega)
  have hat : (upFrom (a + Sb32bit) i).toNat = a.toNat + 0x8000 + i := by
    rw [upFrom_toNat (by omega), hbase]
  refine ⟨?_, rfl, by omega, by omega⟩
  rw [or_Sb32bit (by omega), upFrom, upFrom]
  ac_rfl

theorem sbrwBytes_moves {a : BitVec 32} {j : Nat} {xs : List Byte}
    (h : a.toNat + j + xs.length ≤ 0x8000) :
    Moves (fun b => sbrwBytes answer fails true b (upFrom a j) xs) b
      ((single fails b.done j xs.length).1.map
        fun i => place (page b.chip) (upFrom (a + Sb32bit) i)) (page b.chip)
      (single fails b.done j xs.length).2 := by
  induction xs generalizing b j with
  | nil => exact moves_pure []
  | cons x xs ih =>
    rw [List.length_cons] at h ⊢
    obtain ⟨haddr, hin⟩ := window_address (a := a) (i := j) (by omega)
    have hfirst := sdiowr_moves answer fails (b := b) hin x [x]
    have hrest := ih (b := sdiowr answer fails b Fn1 (upFrom (a + Sb32bit) j) (x.setWidth 32))
      (j := j + 1) (by omega)
    rw [hfirst.page, hfirst.done] at hrest
    have hjoin := hfirst.andThen hrest
    have hplace : (if (attempts fails b.done 10).1 then
        [place (page b.chip) (upFrom (a + Sb32bit) j)] else []) =
          (if (attempts fails b.done 10).1 then [j] else []).map
            fun i => place (page b.chip) (upFrom (a + Sb32bit) i) := by
      split <;> rfl
    rw [hplace, ← List.map_append] at hjoin
    refine hjoin.congr fun b => ?_
    have hnext : upFrom a j + 1 = upFrom a (j + 1) := (congrFun (upFrom_add a j) 1).symm
    simp only [sbrwBytes, if_true]
    rw [haddr, hnext]

/-- The bytes of one turn. -/
theorem sbrw_moves {a : BitVec 32} {xs : List Byte} (h : a.toNat + xs.length ≤ 0x8000) :
    Moves (fun b => sbrw answer fails b true xs a) b
      ((moved fails b.done xs.length).1.map
        fun i => place (page b.chip) (upFrom (a + Sb32bit) i)) (page b.chip)
      (moved fails b.done xs.length).2 := by
  unfold sbrw moved
  by_cases h4 : 4 ≤ xs.length
  · simp only [if_pos h4]
    set n := xs.length / 4 * 4 with hn
    have htake : (xs.take n).length = n := by
      rw [List.length_take]
      omega
    have hdrop : (xs.drop n).length = xs.length - n := List.length_drop
    have hx : Sb32bit.toNat = 0x8000 := rfl
    have hbase : (a + Sb32bit).toNat = a.toNat + 0x8000 := by
      rw [BitVec.toNat_add, hx]
      omega
    have hbelow : (a + Sb32bit).toNat + 0 + (xs.take n).length ≤ 0x10000 := by omega
    have hfirst := sdiorwext_moves answer fails (b := b) (by omega) hbelow
    rw [upFrom_zero, ← or_Sb32bit (by omega), htake] at hfirst
    have hbehind : a.toNat + n + (xs.drop n).length ≤ 0x8000 := by omega
    have hrest := sbrwBytes_moves answer fails
      (b := (sdiorwext answer fails b Fn1 true (xs.take n) (a ||| Sb32bit) true).1) hbehind
    rw [hfirst.page, hfirst.done, hdrop, ← or_Sb32bit (by omega)] at hrest
    have hjoin := hfirst.andThen hrest
    rw [← List.map_append] at hjoin
    rw [← or_Sb32bit (by omega)]
    exact hjoin
  · simp only [if_neg h4]
    have hall : a.toNat + 0 + xs.length ≤ 0x8000 := by omega
    have hbytes := sbrwBytes_moves answer fails (b := b) hall
    rw [upFrom_zero] at hbytes
    exact hbytes

/-! ## The window -/

/-- A register of function 1 is written if one of the ten attempts goes through. -/
theorem cfgw_eq {a val : BitVec 32} (h : 0x10000 ≤ a.toNat) (hlt : a.toNat < 0x20000) :
    cfgw answer fails b a val =
      { b with
        chip := { b.chip with
          regs := Function.update b.chip.regs Fn1 (Function.update (b.chip.regs Fn1) a
            (if (attempts fails b.done 10).1 then val.setWidth 8 else b.chip.regs Fn1 a)) }
        done := (attempts fails b.done 10).2 } := by
  have hout : ¬ (Fn1 = Fn1 ∧ 0x8000 ≤ a.toNat ∧ a.toNat < 0x10000) := by omega
  have hnot : ¬ inWindow Fn1 a := hout
  unfold cfgw
  rw [sdiowr_eq answer fails hlt]
  split
  · unfold Bus.access Chip.access
    rw [if_neg hout]
    simp [hnot, Bus.counted]
  · rw [Function.update_eq_self, Function.update_eq_self]
    rfl

/-- The page, from the three bytes of the window register. -/
def pageOf (x0 x1 x2 : Byte) : BitVec 32 :=
  x0.setWidth 32 <<< 8 &&& 0x8000#32 ||| x1.setWidth 32 <<< 16 ||| x2.setWidth 32 <<< 24

section fields

variable (c : Chip) (off : BitVec 32) (x0 x1 x2 : Byte)

theorem page_eq :
    page c = pageOf (c.regs Fn1 Sbaddr) (c.regs Fn1 (Sbaddr + 1)) (c.regs Fn1 (Sbaddr + 2)) := by
  unfold page Chip.window pageOf
  apply BitVec.eq_of_getLsbD_eq
  intro i hi
  interval_cases i <;> simp

theorem pageOf_low : pageOf x0 x1 x2 &&& 0x8000#32 = x0.setWidth 32 <<< 8 &&& 0x8000#32 := by
  unfold pageOf
  apply BitVec.eq_of_getLsbD_eq
  intro i hi
  interval_cases i <;> simp

theorem pageOf_middle : pageOf x0 x1 x2 &&& 0xFF0000#32 = x1.setWidth 32 <<< 16 := by
  unfold pageOf
  apply BitVec.eq_of_getLsbD_eq
  intro i hi
  interval_cases i <;> simp

theorem pageOf_high : pageOf x0 x1 x2 &&& 0xFF000000#32 = x2.setWidth 32 <<< 24 := by
  unfold pageOf
  apply BitVec.eq_of_getLsbD_eq
  intro i hi
  interval_cases i <;> simp

theorem pageOf_address :
    pageOf (((off &&& ~~~ (Sbwsize - 1)) >>> 8).setWidth 8)
      (((off &&& ~~~ (Sbwsize - 1)) >>> 16).setWidth 8)
      (((off &&& ~~~ (Sbwsize - 1)) >>> 24).setWidth 8) = off &&& ~~~ 0x7FFF#32 := by
  have hmask : Sbwsize - 1 = 0x7FFF#32 := rfl
  rw [hmask]
  unfold pageOf
  apply BitVec.eq_of_getLsbD_eq
  intro i hi
  interval_cases i <;> simp

/-- Bits that one byte of the window brings, from the address or from before. -/
theorem page_bits (ok : Bool) {mask : BitVec 32} {f : Byte → BitVec 32} {x p : Byte}
    {new old : BitVec 32} (hnew : f x = new &&& mask) (hold : f p = old &&& mask) :
    f (if ok then x else p) = (if ok then new else old) &&& mask := by
  cases ok with
  | true => exact hnew
  | false => exact hold

/-- Three bytes of the window, of which each one is the address's or the one before. -/
theorem pageOf_chosen (k0 k1 k2 : Bool) (p0 p1 p2 : Byte)
    (h : pageOf x0 x1 x2 = off &&& ~~~ 0x7FFF#32) :
    pageOf (if k0 then x0 else p0) (if k1 then x1 else p1) (if k2 then x2 else p2) =
      (if k0 then off else pageOf p0 p1 p2) &&& 0x8000#32 |||
        (if k1 then off else pageOf p0 p1 p2) &&& 0xFF0000#32 |||
        (if k2 then off else pageOf p0 p1 p2) &&& 0xFF000000#32 := by
  have hbits : ∀ mask : BitVec 32, ~~~ 0x7FFF#32 &&& mask = mask →
      pageOf x0 x1 x2 &&& mask = off &&& mask := by
    intro mask hmask
    rw [h, BitVec.and_assoc, hmask]
  have hlow := (pageOf_low x0 x1 x2).symm.trans (hbits _ (by decide))
  have hmiddle := (pageOf_middle x0 x1 x2).symm.trans (hbits _ (by decide))
  have hhigh := (pageOf_high x0 x1 x2).symm.trans (hbits _ (by decide))
  rw [← page_bits k0 (f := fun x => x.setWidth 32 <<< 8 &&& 0x8000#32) hlow
      (pageOf_low p0 p1 p2).symm,
    ← page_bits k1 (f := fun x => x.setWidth 32 <<< 16) hmiddle (pageOf_middle p0 p1 p2).symm,
    ← page_bits k2 (f := fun x => x.setWidth 32 <<< 24) hhigh (pageOf_high p0 p1 p2).symm]
  rfl

end fields

theorem sbwindow_moves {γ : Type} (off : BitVec 32) (y : γ) :
    Moves (fun b => (sbwindow answer fails b off, y)) b []
      (chosen fails (page b.chip) off b.done).1 (chosen fails (page b.chip) off b.done).2 := by
  have h01 : Sbaddr ≠ Sbaddr + 1 := by decide
  have h02 : Sbaddr ≠ Sbaddr + 2 := by decide
  have h12 : Sbaddr + 1 ≠ Sbaddr + 2 := by decide
  unfold sbwindow
  simp only [cfgw_eq answer fails (a := Sbaddr) (by decide) (by decide),
    cfgw_eq answer fails (a := Sbaddr + 1) (by decide) (by decide),
    cfgw_eq answer fails (a := Sbaddr + 2) (by decide) (by decide)]
  refine ⟨?_, rfl, [], ⟨(List.append_nil _).symm, fun _ => rfl⟩, rfl⟩
  rw [page_eq, page_eq]
  simp only [Function.update_self, Function.update_of_ne h01, Function.update_of_ne h02,
    Function.update_of_ne h12, Function.update_of_ne h01.symm, Function.update_of_ne h02.symm,
    Function.update_of_ne h12.symm]
  exact pageOf_chosen _ _ _ _ _ _ _ _ _ _ (pageOf_address off)

/-! ## The turns -/

/-- A page and its places in the window. -/
theorem place_window (p off : BitVec 32) (i : Nat) :
    place p (upFrom ((off &&& (Sbwsize - 1)) + Sb32bit) i) = place p (upFrom off i) := by
  have hx : Sb32bit.toNat = 0x8000 := rfl
  have hlow : (off &&& (Sbwsize - 1)).toNat = off.toNat % 0x8000 := toNat_low off
  have hsame : upFrom ((off &&& (Sbwsize - 1)) + Sb32bit) i &&& 0x7FFF#32 =
      upFrom off i &&& 0x7FFF#32 := by
    apply BitVec.eq_of_toNat_eq
    rw [toNat_low, toNat_low, upFrom, upFrom, BitVec.toNat_add, BitVec.toNat_add,
      BitVec.toNat_add, hlow, hx]
    omega
  unfold place
  rw [hsame]

/-- The first turn ends with its window, so the second one starts with the next window. -/
theorem next_window {off : BitVec 32} {n len : Nat} (h : 0 < len → n = 0x8000 - off.toNat % 0x8000)
    (hrest : 0 < len - min n len) :
    Sbwsize.toNat = 0x8000 - (off + BitVec.ofNat 32 (min n len)).toNat % 0x8000 := by
  have hlt := off.isLt
  have hn := h (by omega)
  have hs : Sbwsize.toNat = 0x8000 := rfl
  rw [hs, BitVec.toNat_add, BitVec.toNat_ofNat]
  omega

/-- `sbmem` writes what the pattern says. -/
theorem sbmemLoop_moves {buf : List Byte} {off : BitVec 32} {n : Nat} (hn : 0 < n)
    (h : 0 < buf.length → n = 0x8000 - off.toNat % 0x8000) :
    ∃ p k, Moves (fun b => sbmemLoop answer fails true b buf off n hn) b
      ((turnsLoop fails (page b.chip) off b.done buf.length n hn).flatMap Turn.places) p k := by
  induction hl : buf.length using Nat.strong_induction_on generalizing b buf off n with
  | _ len ih =>
    subst hl
    by_cases h0 : buf = []
    · subst h0
      refine ⟨page b.chip, b.done, ?_⟩
      unfold turnsLoop
      refine (moves_pure []).congr fun b => ?_
      unfold sbmemLoop
      exact dif_pos rfl
    · have hpos := List.length_pos_iff.mpr h0
      have hlt := off.isLt
      have hrest : 0 < buf.length - min n buf.length → _ := next_window h
      have hfull := h hpos
      set m := min n buf.length with hm
      have htake : (buf.take m).length = m := by
        rw [List.length_take]
        omega
      have hdrop : (buf.drop m).length = buf.length - m := List.length_drop
      have hlow : (off &&& (Sbwsize - 1)).toNat = off.toNat % 0x8000 := toNat_low off
      have hwindow := sbwindow_moves answer fails (b := b) off ()
      have hinside : (off &&& (Sbwsize - 1)).toNat + (buf.take m).length ≤ 0x8000 := by omega
      have hbytes := sbrw_moves answer fails (b := sbwindow answer fails b off) hinside
      rw [hwindow.page, hwindow.done, htake] at hbytes
      have hturn := hwindow.bind (g := fun _ b => sbrw answer fails b true (buf.take m)
        (off &&& (Sbwsize - 1))) hbytes
      rw [List.nil_append] at hturn
      simp only [place_window] at hturn
      obtain ⟨p, k, hnext⟩ := @ih (buf.drop m).length (by omega)
        (sbrw answer fails (sbwindow answer fails b off) true (buf.take m)
          (off &&& (Sbwsize - 1))).1 (buf.drop m) (off + BitVec.ofNat 32 m) _ Sbwsize_pos
        (fun hlen => hrest (hdrop ▸ hlen)) rfl
      rw [hturn.page, hturn.done, hdrop] at hnext
      refine ⟨p, k, ?_⟩
      unfold turnsLoop
      rw [dif_neg hpos.ne']
      refine (hturn.andThen hnext).congr fun b => ?_
      conv_lhs => unfold sbmemLoop
      rw [dif_neg h0]

/-! ## Where a turn is -/

section walk

variable {fails}

theorem transferred_inside {k j len : Nat} :
    ∀ i ∈ (transferred fails k j len).1, j ≤ i ∧ i < j + len := by
  induction len using Nat.strong_induction_on generalizing k j with
  | _ len ih =>
    unfold transferred
    split
    · intro i hi
      cases hi
    · rename_i h0
      obtain ⟨⟨blk, bcount, m⟩, ht⟩ : ∃ t, nextTransfer 64 len = t := ⟨_, rfl⟩
      obtain ⟨hb0, hb, hle, hm⟩ := nextTransfer_spec (Nat.pos_of_ne_zero h0) ht
      have hm0 : 0 < m := by split at hm <;> omega
      rw [ht]
      dsimp only
      intro i hi
      rcases List.mem_append.mp hi with hi | hi
      · split at hi
        · cases hi
        · have hrange := List.mem_range'_1.mp hi
          omega
      · have hrest := ih (len - m) (by omega) i hi
        omega

theorem single_inside {k j len : Nat} : ∀ i ∈ (single fails k j len).1, j ≤ i ∧ i < j + len := by
  induction len generalizing k j with
  | zero =>
    intro i hi
    cases hi
  | succ len ih =>
    intro i hi
    rcases List.mem_append.mp hi with hi | hi
    · split at hi
      · rw [List.mem_singleton.mp hi]
        omega
      · cases hi
    · have hrest := ih i hi
      omega

theorem moved_inside {k len : Nat} : ∀ i ∈ (moved fails k len).1, i < len := by
  unfold moved
  split
  · intro i hi
    rcases List.mem_append.mp hi with hi | hi
    · have := transferred_inside i hi
      omega
    · have := single_inside i hi
      omega
  · intro i hi
    have := single_inside i hi
    omega

/-- A turn takes bytes of the buffer that lie in one window. -/
theorem turnsLoop_inside {p off : BitVec 32} {k len n : Nat} (hn : 0 < n)
    (h : 0 < len → n = 0x8000 - off.toNat % 0x8000) :
    ∀ t ∈ turnsLoop fails p off k len n hn, ∃ j, t.off = upFrom off j ∧
      ∀ i ∈ t.moved, j + i < len ∧ t.off.toNat % 0x8000 + i < 0x8000 := by
  induction len using Nat.strong_induction_on generalizing p off k n with
  | _ len ih =>
    unfold turnsLoop
    split
    · intro t ht
      cases ht
    · rename_i h0
      have hnext := next_window h
      have hfull := h (Nat.pos_of_ne_zero h0)
      intro t ht
      rcases List.mem_cons.mp ht with rfl | ht
      · refine ⟨0, (upFrom_zero off).symm, ?_⟩
        intro i hi
        have := moved_inside i hi
        dsimp only
        omega
      · obtain ⟨j, hoff, hin⟩ := ih (len - min n len) (by omega) Sbwsize_pos hnext t ht
        refine ⟨min n len + j, ?_, ?_⟩
        · rw [hoff]
          exact (congrFun (upFrom_add off (min n len)) j).symm
        · intro i hi
          have := hin i hi
          omega

theorem turns_inside {p off : BitVec 32} {k len : Nat} :
    ∀ t ∈ turns fails p off k len, ∃ j, t.off = upFrom off j ∧
      ∀ i ∈ t.moved, j + i < len ∧ t.off.toNat % 0x8000 + i < 0x8000 :=
  turnsLoop_inside _ fun _ => windowRest_eq off

end walk

/-- In its own page a byte lands in its own place. -/
theorem place_own {off : BitVec 32} {i : Nat} (h : off.toNat % 0x8000 + i < 0x8000) :
    place (off &&& ~~~ 0x7FFF#32) (upFrom off i) = upFrom off i := by
  have hlt := off.isLt
  have hat : (upFrom off i).toNat = off.toNat + i := upFrom_toNat (by omega)
  have hlow : (upFrom off i &&& 0x7FFF#32).toNat = off.toNat % 0x8000 + i := by
    rw [toNat_low, hat]
    omega
  apply BitVec.eq_of_toNat_eq
  unfold place
  rw [toNat_high_or (toNat_high off) (by omega), hlow, hat]
  omega

/-- The pages of the turns end with 15 zero bits. -/
theorem chosen_high (p off : BitVec 32) (k : Nat) :
    (chosen fails p off k).1 &&& ~~~ 0x7FFF#32 = (chosen fails p off k).1 := by
  have hmask : ∀ x y z : BitVec 32,
      (x &&& 0x8000#32 ||| y &&& 0xFF0000#32 ||| z &&& 0xFF000000#32) &&& ~~~ 0x7FFF#32 =
        x &&& 0x8000#32 ||| y &&& 0xFF0000#32 ||| z &&& 0xFF000000#32 := by
    intro x y z
    apply BitVec.eq_of_getLsbD_eq
    intro i hi
    interval_cases i <;> simp
  exact hmask _ _ _

theorem turnsLoop_high {p off : BitVec 32} {k len n : Nat} (hn : 0 < n) :
    ∀ t ∈ turnsLoop fails p off k len n hn, t.page &&& ~~~ 0x7FFF#32 = t.page := by
  induction len using Nat.strong_induction_on generalizing p off k n with
  | _ len ih =>
    unfold turnsLoop
    split
    · intro t ht
      cases ht
    · intro t ht
      rcases List.mem_cons.mp ht with rfl | ht
      · exact chosen_high fails p off k
      · exact ih (len - min n len) (by omega) Sbwsize_pos t ht

/-- The page of a place, and the place in the page. -/
theorem toNat_place {p off : BitVec 32} {q : Nat} (hp : p.toNat = q * 0x8000) :
    (place p off).toNat = q * 0x8000 + off.toNat % 0x8000 := by
  have hlow : (off &&& 0x7FFF#32).toNat = off.toNat % 0x8000 := toNat_low off
  unfold place
  rw [toNat_high_or hp (by omega), hlow]

/-- A range of at most one window meets each place of the window once. So a byte that
lands in the range has its own page. -/
theorem own_page_of_place {off toff p : BitVec 32} {i j l len : Nat} (hlen : len ≤ 0x8000)
    (hp : p &&& ~~~ 0x7FFF#32 = p) (hoff : toff = upFrom off j) (hin : j + i < len)
    (hwin : toff.toNat % 0x8000 + i < 0x8000) (hl : l < len)
    (heq : upFrom off l = place p (upFrom toff i)) : p = toff &&& ~~~ 0x7FFF#32 := by
  have hnat := congrArg BitVec.toNat heq
  have hq := toNat_high p
  rw [hp] at hq
  generalize p.toNat / 0x8000 = q at hq
  have hown : upFrom toff i = upFrom off (j + i) := by
    rw [hoff]
    exact (congrFun (upFrom_add off j) i).symm
  have hsame : l = j + i := by
    rw [toNat_place hq, hown, upFrom, upFrom, BitVec.toNat_add, BitVec.toNat_add,
      BitVec.toNat_ofNat, BitVec.toNat_ofNat] at hnat
    omega
  have hlt := toff.isLt
  have hat : (upFrom toff i).toNat = toff.toNat + i := upFrom_toNat (by omega)
  rw [hsame, ← hown, toNat_place hq, hat] at hnat
  apply BitVec.eq_of_toNat_eq
  rw [toNat_high, hq]
  omega

/-! ## The law -/

/-- On no memory a byte outside of the buffer's place is changed. -/
def StaysInRange (answer : Answer) (fails : Nat → Bool) (b : Bus) (buf : List Byte)
    (off : BitVec 32) : Prop :=
  ∀ mem a, (∀ i < buf.length, off + BitVec.ofNat 32 i ≠ a) →
    (sbmem answer fails { b with chip := { b.chip with mem := mem } } true buf off).1.chip.mem a =
      mem a

theorem staysInRange_iff (b : Bus) (buf : List Byte) (off : BitVec 32) :
    StaysInRange answer fails b buf off ↔
      ∀ t ∈ turns fails (page b.chip) off b.done buf.length,
        ∀ i ∈ t.moved, ∃ j < buf.length, upFrom off j = place t.page (upFrom t.off i) := by
  have hcells : Nontrivial Byte := ⟨0, 1, by decide⟩
  obtain ⟨p, k, -, -, new, hnew, hplaces⟩ := sbmemLoop_moves answer fails (b := b)
    (windowRest_pos off) fun _ : 0 < buf.length => windowRest_eq off
  have hstays := hnew.stays_iff fun a => ∃ j < buf.length, upFrom off j = a
  have hprop : StaysInRange answer fails b buf off ↔
      ∀ w ∈ new, ∃ j < buf.length, upFrom off j = w.1 := by
    rw [← hstays]
    refine forall₂_congr fun mem a => imp_congr ?_ Iff.rfl
    simp only [not_exists, not_and, upFrom, ne_eq]
  rw [hprop, ← List.forall_mem_map (P := fun a => ∃ j < buf.length, upFrom off j = a), hplaces]
  constructor
  · intro h t ht i hi
    exact h _ (List.mem_flatMap.mpr ⟨t, ht, List.mem_map_of_mem hi⟩)
  · intro h a ha
    obtain ⟨t, ht, hat⟩ := List.mem_flatMap.mp ha
    obtain ⟨i, hi, rfl⟩ := List.mem_map.mp hat
    exact h t ht i hi

/-- With its own page, a turn stays in the buffer's place. -/
theorem own_page_stays {p off : BitVec 32} {k len : Nat} {t : Turn}
    (ht : t ∈ turns fails p off k len) (hpage : t.page = t.off &&& ~~~ 0x7FFF#32) :
    ∀ i ∈ t.moved, ∃ j < len, upFrom off j = place t.page (upFrom t.off i) := by
  obtain ⟨j, hoff, hturn⟩ := turns_inside t ht
  intro i hi
  refine ⟨j + i, (hturn i hi).1, ?_⟩
  rw [hpage, place_own (hturn i hi).2, hoff]
  exact congrFun (upFrom_add off j) i

/-- `sbmem` stays in the buffer's place exactly when each turn has its own page or moves
only bytes that happen to land there. In a buffer of at most one window none does. -/
theorem writes_stay_in_range_iff (answer : Answer) (fails : Nat → Bool) (b : Bus)
    (buf : List Byte) (off : BitVec 32) :
    (StaysInRange answer fails b buf off ↔
      ∀ t ∈ turns fails (page b.chip) off b.done buf.length,
        t.page = t.off &&& ~~~ 0x7FFF#32 ∨
          ∀ i ∈ t.moved, ∃ j < buf.length,
            off + BitVec.ofNat 32 j = place t.page (t.off + BitVec.ofNat 32 i)) ∧
    (buf.length ≤ 0x8000 →
      (StaysInRange answer fails b buf off ↔
        ∀ t ∈ turns fails (page b.chip) off b.done buf.length,
          t.page = t.off &&& ~~~ 0x7FFF#32 ∨ t.moved = [])) := by
  have hstays := staysInRange_iff answer fails b buf off
  rw [hstays]
  constructor
  · refine forall₂_congr fun t ht => ⟨.inr, ?_⟩
    rintro (hpage | hin)
    · exact own_page_stays fails ht hpage
    · exact hin
  · intro hlen
    refine forall₂_congr fun t ht => ?_
    constructor
    · intro hin
      by_cases hempty : t.moved = []
      · exact .inr hempty
      · left
        obtain ⟨j, hoff, hturn⟩ := turns_inside t ht
        obtain ⟨i, hi⟩ := List.exists_mem_of_ne_nil _ hempty
        obtain ⟨l, hl, heq⟩ := hin i hi
        exact own_page_of_place hlen (turnsLoop_high fails _ t ht) hoff (hturn i hi).1
          (hturn i hi).2 hl heq
    · rintro (hpage | hempty)
      · exact own_page_stays fails ht hpage
      · intro i hi
        rw [hempty] at hi
        cases hi

/-- The window's three writes are lost, and the byte goes to the page before. -/
theorem a_lost_window_redirects_the_data :
    ¬ ∀ (fails : Nat → Bool) (b : Bus) (buf : List Byte) (off a : BitVec 32),
      (∀ i < buf.length, off + BitVec.ofNat 32 i ≠ a) →
        (sbmem honest fails b true buf off).1.chip.mem a = b.chip.mem a := by
  intro h
  have hlost := h (fun k => k < 30) ⟨blankChip, 0, []⟩ [1] 0x18000 0 (by decide)
  revert hlost
  decide +kernel

end rpi_wifi.ether4330.faulty
