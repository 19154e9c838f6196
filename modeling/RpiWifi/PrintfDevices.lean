-- What becomes of the output where the format and the strings are in the memory that the output
-- function sees: it gets the text of the format up to the first character that it refuses, and
-- `vsprintf` and `snprint` leave it in their buffer. The buffer and what is read are apart.
import RpiWifi.PrintfOutput

namespace rpi_wifi.plibc.doprnt

open ether4330 memory

variable {σ : Type} {put : Put σ} {m m' : Mem} {p n : Nat} {out : CString} {ap : List Word}

/-! ## Strings in the memory -/

theorem bytesFrom_eq (m : Mem) (n p : Nat) : bytesFrom m (n + 1) p =
    if m (p % 2 ^ 32) = 0 then [] else m (p % 2 ^ 32) :: bytesFrom m n (p + 1) := rfl

theorem bytesFrom_congr (h : ∀ i ≤ (bytesFrom m n p).length,
    m' ((p + i) % 2 ^ 32) = m ((p + i) % 2 ^ 32)) : bytesFrom m' n p = bytesFrom m n p := by
  induction n generalizing p with
  | zero => rfl
  | succ n ih =>
    have hhere : m' (p % 2 ^ 32) = m (p % 2 ^ 32) := h 0 (Nat.zero_le _)
    rw [bytesFrom_eq] at h ⊢
    rw [bytesFrom_eq, hhere]
    by_cases hzero : m (p % 2 ^ 32) = 0
    · rw [if_pos hzero, if_pos hzero]
    · rw [if_neg hzero] at h
      rw [if_neg hzero, if_neg hzero, ih]
      intro i hi
      rw [Nat.add_assoc, Nat.add_comm 1]
      apply h (i + 1)
      rw [List.length_cons]
      omega

theorem bytesFrom_getD {i : Nat} (hi : i < (bytesFrom m n p).length) :
    (bytesFrom m n p).getD i 0 = m ((p + i) % 2 ^ 32) := by
  induction n generalizing p i with
  | zero => cases hi
  | succ n ih =>
    rw [bytesFrom_eq] at hi ⊢
    split_ifs at hi ⊢ with hzero
    · cases hi
    · cases i with
      | zero => rfl
      | succ i =>
        rw [List.length_cons] at hi
        have hrest := ih (Nat.lt_of_succ_lt_succ hi)
        rwa [Nat.add_assoc, Nat.add_comm 1] at hrest

/-- Behind a NUL nothing is read. -/
theorem bytesFrom_succ (h : (bytesFrom m n p).length < n) :
    bytesFrom m (n + 1) p = bytesFrom m n p := by
  induction n generalizing p with
  | zero => cases h
  | succ n ih =>
    rw [bytesFrom_eq] at h
    rw [bytesFrom_eq m (n + 1) p, bytesFrom_eq m n p]
    split_ifs at h ⊢ with hzero
    · rfl
    · rw [List.length_cons] at h
      rw [ih (Nat.lt_of_succ_lt_succ h)]

theorem bytesFrom_add {k : Nat} (hk : k ≤ (bytesFrom m n p).length)
    (h : (bytesFrom m n p).length < n) : bytesFrom m n (p + k) = (bytesFrom m n p).drop k := by
  induction k generalizing p with
  | zero => rfl
  | succ k ih =>
    obtain ⟨n, rfl⟩ : ∃ j, n = j + 1 := ⟨n - 1, by omega⟩
    have hcons : bytesFrom m (n + 1) p = m (p % 2 ^ 32) :: bytesFrom m n (p + 1) := by
      rw [bytesFrom_eq] at hk ⊢
      split_ifs at hk ⊢ with hzero
      · cases hk
      · rfl
    rw [hcons, List.length_cons] at h hk
    have hmore := bytesFrom_succ (show (bytesFrom m n (p + 1)).length < n by omega)
    have hrest := ih (p := p + 1) (by rw [hmore]; omega) (by rw [hmore]; omega)
    rw [hcons, List.drop_succ_cons, ← hmore, ← hrest, Nat.add_assoc, Nat.add_comm 1]

/-- A byte of the string at an address, or its NUL. -/
def Spans (m : Mem) (p a : Nat) : Prop := ∃ i ≤ (stringAt m p).length, a = (p + i) % 2 ^ 32

/-- The strings of a memory. -/
def stringsOf (m : Mem) : Strings := fun p => stringAt m p.toNat

/-- A byte that is read for a format and its arguments. -/
def Reads (m : Mem) (fmt : Nat) (ap : List Word) (a : Nat) : Prop :=
  Spans m fmt a ∨ ∃ p, Prints (stringAt m fmt) ap p ∧ Spans m p.toNat a

/-- The memory with the bytes `out` from `buf` on. -/
def withBytes (m : Mem) (buf : Nat) (out : CString) : Mem := fun a =>
  if buf ≤ a ∧ a < buf + out.length then out.getD (a - buf) 0 else m a

/-- A format at 200, and at 300 the string that it prints. -/
def ssidMem : Mem := withBytes (withBytes (fun _ => 0) 200 (cstr "ssid=%s")) 300 (cstr "cellar")

theorem ssidMem_text : _doprnt record (stringsOf ssidMem) (stringAt ssidMem 200) [300] [] =
    some (11, cstr "ssid=cellar") := by
  decide

/-! ## The loop over a format in the memory -/

/-- When what is read for the format stays, its text is handed on. -/
theorem device_formatLoop {d : Device σ} {P : σ × Nat → Prop} {K fmt rounds : Nat}
    (hstays : Stays d.put P K) (hmem : ∀ y, P y → ∀ a, Reads m fmt ap a → d.mem y.1 a = m a)
    (hend : (stringAt m fmt).length < 2 ^ 32) {x : σ × Nat} (hx : P x)
    (h : formatText (stringsOf m) rounds (stringAt m fmt) ap = some out)
    (hroom : x.2 + out.length ≤ K) :
    formatLoop d.reader d.put rounds fmt ap x = putText d.put out x := by
  refine formatLoop_eq
    (A := fun place text => ∃ k ≤ (stringAt m fmt).length,
      place = fmt + k ∧ text = (stringAt m fmt).drop k)
    hstays ?_ ?_ ⟨0, Nat.zero_le _, rfl, rfl⟩ hx ?_ h hroom
  · rintro y place text hy ⟨k, hk, rfl, rfl⟩
    have hthere : stringAt m (fmt + k) = (stringAt m fmt).drop k := bytesFrom_add hk hend
    rw [← hthere]
    apply bytesFrom_congr
    intro i hi
    apply hmem y hy
    have hlen : i ≤ (stringAt m (fmt + k)).length := hi
    rw [hthere, List.length_drop] at hlen
    exact .inl ⟨k + i, by omega, by rw [Nat.add_assoc]⟩
  · rintro place text j ⟨k, hk, rfl, rfl⟩ hj
    rw [List.length_drop] at hj
    exact ⟨k + j, by omega, Nat.add_assoc fmt k j, by rw [List.drop_drop]⟩
  · intro q hq y hy
    have hsame : stringAt (d.mem y.1) q.toNat = stringAt m q.toNat :=
      bytesFrom_congr fun i hi => hmem y hy _ (.inr ⟨q, hq, i, hi, rfl⟩)
    refine ⟨congrArg List.length hsame, fun i hi => ?_⟩
    have hread : d.mem y.1 ((q.toNat + i) % 2 ^ 32) = m ((q.toNat + i) % 2 ^ 32) :=
      hmem y hy _ (.inr ⟨q, hq, i, hi.le, rfl⟩)
    exact hread.trans (bytesFrom_getD hi).symm

/-! ## A character that is refused -/

/-- The characters `out` are taken, one after the other. -/
inductive Takes (put : Put σ) : σ → CString → σ → Prop where
  | nil (s : σ) : Takes put s [] s
  | cons {s t u : σ} {c : Byte} {out : CString} (h : put s c = (true, t)) (rest : Takes put t out u) :
      Takes put s (c :: out) u

/-- `out` is put out: all of it is taken, or it stops at the first character that is not. -/
inductive Ends (put : Put σ) (s : σ) (out : CString) : Bool × σ → Prop where
  | taken {t : σ} (h : Takes put s out t) : Ends put s out (true, t)
  | refused {pre post : CString} {c : Byte} {t u : σ} (split : out = pre ++ c :: post)
      (h : Takes put s pre t) (hc : put t c = (false, u)) : Ends put s out (false, u)

theorem putText_ends {x : σ × Nat} (h : x.2 + out.length < 2 ^ 31) :
    ∃ e, Ends put x.1 out e ∧ (putText put out x).run.map returned =
      some (if e.1 then ((x.2 + out.length : Nat) : Int) else EOF, e.2) := by
  induction out generalizing x with
  | nil => exact ⟨_, .taken (.nil x.1), rfl⟩
  | cons c out ih =>
    rw [List.length_cons] at h
    rcases hput : put x.1 c with ⟨_ | _, t⟩
    · refine ⟨_, .refused rfl (.nil x.1) hput, ?_⟩
      rw [putText, putc, hput]
      rfl
    · have hfit : fits (x.2 + 1) = some (x.2 + 1) := if_pos (by omega)
      obtain ⟨e, hends, hrun⟩ := ih (x := (t, x.2 + 1)) (by dsimp only; omega)
      have hrest : putText put (c :: out) x = putText put out (t, x.2 + 1) := by
        rw [putText, putc, hput]
        dsimp only
        rw [hfit]
        rfl
      refine ⟨e, ?_, ?_⟩
      · cases hends with
        | taken h => exact .taken (.cons hput h)
        | refused split h hc => exact .refused (by rw [split]; rfl) (.cons hput h) hc
      · rw [hrest, hrun, List.length_cons, Nat.add_assoc, Nat.add_comm 1]

/-- The text of the format goes to the output function up to the first character that this
refuses, and then `EOF` is returned, when the output function leaves the format and the strings
that are printed alone. -/
theorem the_output_stops_at_a_refusal (d : Device σ) {s : σ} {fmt : Nat} {i : Int}
    (h : _doprnt record (stringsOf (d.mem s)) (stringAt (d.mem s) fmt) ap [] = some (i, out))
    (hend : (stringAt (d.mem s) fmt).length < 2 ^ 32)
    (hkeeps : ∀ a, Reads (d.mem s) fmt ap a → ∀ t c, d.mem (d.put t c).2 a = d.mem t a)
    {rounds : Nat} (hrounds : (stringAt (d.mem s) fmt).length ≤ rounds) :
    ∃ e, Ends d.put s out e ∧
      d._doprnt rounds fmt ap s = some (if e.1 then (out.length : Int) else EOF, e.2) := by
  obtain ⟨htext, hlen, -⟩ := doprnt_record_some h
  have hstays : Stays d.put (fun y => ∀ a, Reads (d.mem s) fmt ap a → d.mem y.1 a = d.mem s a)
      out.length := by
    intro t k c u ht _ hput a ha
    have hkept := hkeeps a ha t c
    rw [hput] at hkept
    exact hkept.trans (ht a ha)
  have hloop := device_formatLoop hstays (fun y hy => hy) hend (x := (s, 0)) (fun _ _ => rfl)
    (formatText_mono htext hrounds) (Nat.zero_add _).le
  obtain ⟨e, hends, hrun⟩ := @putText_ends σ d.put out (s, 0) (by rwa [Nat.zero_add])
  rw [Nat.zero_add] at hrun
  exact ⟨e, hends, by rw [Device._doprnt, hloop, hrun]⟩

/-- A device with room for four characters takes `ssid`. -/
theorem a_full_device_stops_the_output :
    let d : Device Nat := ⟨fun room _ => (room != 0, room - 1), fun _ => ssidMem⟩
    ∃ e, Ends d.put 4 (cstr "ssid=cellar") e ∧
      d._doprnt 7 200 [300] 4 = some (if e.1 then 11 else EOF, e.2) :=
  the_output_stops_at_a_refusal ⟨fun room _ => (room != 0, room - 1), fun _ => ssidMem⟩ (s := 4)
    ssidMem_text (by decide) (fun _ _ _ _ => rfl) (by decide)

/-! ## A buffer -/

theorem withBytes_cons (m : Mem) (buf : Nat) (c : Byte) (out : CString) :
    withBytes (Function.update m buf c) (buf + 1) out = withBytes m buf (c :: out) := by
  funext a
  unfold withBytes
  by_cases ha : a = buf
  · subst ha
    simp
  · rw [Function.update_of_ne ha, List.length_cons]
    by_cases hin : buf + 1 ≤ a ∧ a < buf + 1 + out.length
    · have hsub : a - buf = (a - (buf + 1)) + 1 := by omega
      rw [if_pos hin, if_pos (by omega), hsub]
      rfl
    · rw [if_neg hin, if_neg (by omega)]

theorem putText_store (out : CString) (m : Mem) {buf k : Nat} (h : buf + out.length ≤ 2 ^ 32)
    (hk : k + out.length < 2 ^ 31) :
    putText store.put out ((m, buf), k) =
      pure ((withBytes m buf out, buf + out.length), k + out.length) := by
  induction out generalizing m buf k with
  | nil =>
    have hnone : withBytes m buf [] = m := by
      funext a
      exact if_neg (by simp)
    rw [hnone]
    rfl
  | cons c out ih =>
    rw [List.length_cons] at h hk
    have hputc : putc store.put c ((m, buf), k) =
        pure ((Function.update m (buf % 2 ^ 32) c, buf + 1), k + 1) := by
      have hfit : fits (k + 1) = some (k + 1) := if_pos (by omega)
      unfold putc store
      dsimp only
      rw [hfit]
      rfl
    rw [putText, hputc, pure_bind, ih _ (by omega) (by omega), Nat.mod_eq_of_lt (by omega),
      withBytes_cons, List.length_cons, Nat.add_assoc, Nat.add_comm 1, Nat.add_assoc, Nat.add_comm 1]

variable {fmt rounds buf : Nat} {i : Int}

/-- The text that is stored does not meet what is read for it. -/
theorem vsprintf_eq (h : _doprnt record (stringsOf m) (stringAt m fmt) ap [] = some (i, out))
    (hend : (stringAt m fmt).length < 2 ^ 32) (hfit : buf + out.length ≤ 2 ^ 32)
    (hapart : ∀ a, Reads m fmt ap a → a < buf ∨ buf + out.length ≤ a)
    (hrounds : (stringAt m fmt).length ≤ rounds) :
    vsprintf rounds buf fmt ap m = some ((out.length : Int), withBytes m buf out) := by
  obtain ⟨htext, hlen, -⟩ := doprnt_record_some h
  have hstays : Stays store.put (fun y => y.1.2 = buf + y.2 ∧ ∀ a, Reads m fmt ap a → y.1.1 a = m a)
      out.length := by
    rintro ⟨mem, b⟩ k c t ⟨hb, hmem⟩ hk hput
    obtain rfl : b = buf + k := hb
    cases hput
    refine ⟨Nat.add_assoc buf k 1, fun a ha => ?_⟩
    have hne : a ≠ (buf + k) % 2 ^ 32 := by
      rw [Nat.mod_eq_of_lt (by omega)]
      have := hapart a ha
      omega
    exact (Function.update_of_ne hne _ _).trans (hmem a ha)
  have hloop := device_formatLoop (d := store) hstays (fun y hy => hy.2) hend (x := ((m, buf), 0))
    ⟨rfl, fun _ _ => rfl⟩ (formatText_mono htext hrounds) (Nat.zero_add _).le
  rw [putText_store out m hfit (by rwa [Nat.zero_add]), Nat.zero_add] at hloop
  rw [vsprintf, Device._doprnt, hloop]
  rfl

/-- `snprint` leaves the characters that `_doprnt` puts out and a NUL behind them, and no
other byte is changed, when its buffer is apart from the format and the strings. The size that
it is given plays no part. -/
theorem a_text_is_printed_whole
    (h : _doprnt record (stringsOf m) (stringAt m fmt) ap [] = some (i, out))
    (hend : (stringAt m fmt).length < 2 ^ 32) (hfit : buf + out.length < 2 ^ 32)
    (hapart : ∀ a, Reads m fmt ap a → a < buf ∨ buf + out.length ≤ a)
    (hrounds : (stringAt m fmt).length ≤ rounds) (str_size : Nat) :
    snprint rounds buf str_size fmt ap m =
      some ((out.length : Int), withBytes m buf (out ++ [0])) := by
  unfold snprint
  rw [vsprintf_eq h hend hfit.le hapart hrounds]
  simp only [Option.map_some, Int.toNat_natCast, Option.some.injEq, Prod.mk.injEq, true_and]
  funext a
  rw [Nat.mod_eq_of_lt hfit]
  unfold withBytes
  rw [List.length_append, List.length_singleton]
  by_cases ha : a = buf + out.length
  · subst ha
    rw [Function.update_self, if_pos (by omega), Nat.add_sub_cancel_left]
    simp
  · rw [Function.update_of_ne ha]
    by_cases hin : buf ≤ a ∧ a < buf + out.length
    · rw [if_pos hin, if_pos (by omega), List.getD_append _ _ _ _ (by omega)]
    · rw [if_neg hin, if_neg (by omega)]

theorem ssidMem_reads {a : Nat} (h : Reads ssidMem 200 [300] a) : 200 ≤ a ∧ a ≤ 306 := by
  obtain ⟨i, hi, rfl⟩ | ⟨p, hp, i, hi, rfl⟩ := h
  · have hlen : (stringAt ssidMem 200).length = 7 := by decide
    omega
  · obtain rfl : p = 300 := List.mem_singleton.mp hp.mem
    have hlen : (stringAt ssidMem (300 : Word).toNat).length = 6 := by decide
    have haddr : (300 : Word).toNat = 300 := by decide
    omega

/-- Eleven characters and a NUL go into a buffer of four bytes. -/
theorem a_text_is_longer_than_its_buffer :
    snprint 7 100 4 200 [300] ssidMem =
      some (11, withBytes ssidMem 100 (cstr "ssid=cellar" ++ [0])) := by
  refine a_text_is_printed_whole ssidMem_text (by decide) (by decide) (fun a ha => ?_) (by decide) 4
  have hbound := ssidMem_reads ha
  have hlen : (cstr "ssid=cellar").length = 11 := by decide
  omega

-- A string that is printed behind an `x` into its own place is gone when it is read.
example : (snprint 3 300 4 200 [300] (withBytes ssidMem 200 (cstr "x%s" ++ [0]))).map
    (fun r => stringAt r.2 300) = some (cstr "xxxxxxx") := by
  decide

end rpi_wifi.plibc.doprnt
