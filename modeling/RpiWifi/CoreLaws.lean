-- The laws of the scan for cores: every address it stores stands behind the pair of
-- words that names the core, and the table is read to its end and not beyond, but for
-- a table that ends in the first word of a pair.
import RpiWifi.Cores
import RpiWifi.BackplaneLaws

namespace rpi_wifi.ether4330.cores

/-! ## Words at the end of a list -/

theorem rtakeWhile_cons {α : Type} (p : α → Bool) (x : α) (l : List α) :
    (x :: l).rtakeWhile p = if (∀ y ∈ x :: l, p y = true) then x :: l else l.rtakeWhile p := by
  induction l using List.reverseRecOn with
  | nil =>
    have hone := List.rtakeWhile_concat p [] x
    rw [List.nil_append] at hone
    rw [hone]
    simp
  | append_singleton l a ih =>
    rw [← List.cons_append, List.rtakeWhile_concat, List.rtakeWhile_concat, ih]
    by_cases ha : p a = true
    · by_cases hall : ∀ y ∈ x :: l, p y = true
      · have hmore : ∀ y ∈ x :: l ++ [a], p y = true := by
          intro y hy
          rcases List.mem_append.mp hy with hy | hy
          · exact hall y hy
          · rw [List.mem_singleton.mp hy]
            exact ha
        rw [if_pos ha, if_pos ha, if_pos hall, if_pos hmore]
      · have hless : ¬ ∀ y ∈ x :: l ++ [a], p y = true :=
          fun h => hall fun y hy => h y (List.mem_append_left _ hy)
        rw [if_pos ha, if_pos ha, if_neg hall, if_neg hless]
    · have hless : ¬ ∀ y ∈ x :: l ++ [a], p y = true := fun h => ha (h a (by simp))
      rw [if_neg ha, if_neg ha, if_neg hless]

/-- A table of types that no scan leaves: it has an end mark in front of its last word,
or the words of type 1 at its end come in pairs. -/
def Paired (ws : List Byte) : Prop :=
  0xF ∈ ws.dropLast ∨ (ws.rtakeWhile (· == 1)).length % 2 = 0

theorem paired_nil : Paired [] := .inr rfl

theorem not_paired_one : ¬ Paired [1#8] := by
  rintro (h | h)
  · cases h
  · cases h

theorem paired_end (ws : List Byte) : Paired (15#8 :: ws) := by
  cases ws with
  | nil => exact .inr rfl
  | cons w ws => exact .inl (by simp)

/-- A word of another type is passed. -/
theorem paired_cons {w : Byte} (ws : List Byte) (h1 : w ≠ 1) (hF : w ≠ 0xF) :
    Paired (w :: ws) ↔ Paired ws := by
  unfold Paired
  have hrun : (w :: ws).rtakeWhile (· == 1) = ws.rtakeWhile (· == 1) := by
    rw [rtakeWhile_cons, if_neg]
    intro hall
    exact h1 (by simpa using hall w List.mem_cons_self)
  rw [hrun]
  cases ws with
  | nil => simp
  | cons v ws =>
    have hne : ¬ 15#8 = w := fun h => hF h.symm
    simp [hne]

/-- A word of type 1 is passed when the next one is of another type. -/
theorem paired_one {w : Byte} (ws : List Byte) (h1 : w ≠ 1) :
    Paired (1 :: w :: ws) ↔ Paired (w :: ws) := by
  unfold Paired
  have hrun : (1 :: w :: ws).rtakeWhile (· == 1) = (w :: ws).rtakeWhile (· == (1 : Byte)) := by
    rw [rtakeWhile_cons, if_neg]
    intro hall
    exact h1 (by simpa using hall w (by simp))
  rw [hrun, List.dropLast_cons_of_ne_nil (by simp)]
  simp

/-- A pair is passed. -/
theorem paired_two (ws : List Byte) : Paired (1 :: 1 :: ws) ↔ Paired ws := by
  unfold Paired
  have hrun : ((1 :: 1 :: ws).rtakeWhile (· == 1)).length % 2 =
      (ws.rtakeWhile (· == (1 : Byte))).length % 2 := by
    rw [rtakeWhile_cons]
    by_cases hall : ∀ y ∈ ws, (y == (1 : Byte)) = true
    · have hws : ws.rtakeWhile (· == 1) = ws := List.rtakeWhile_eq_self_iff.mpr hall
      rw [if_pos (by simpa using hall), hws, List.length_cons, List.length_cons]
      omega
    · rw [if_neg (by simpa using hall), rtakeWhile_cons, if_neg (by simpa using hall)]
  rw [hrun]
  cases ws with
  | nil => simp
  | cons v ws => simp

/-! ## Runs of the scan -/

variable {buf : Buf} {i j : Nat} {s t : Scan}

/-- The words from index `i` on are the pair that names a core. -/
def CorePair (buf : Buf) (i : Nat) : Prop := kind buf i = 1 ∧ kind buf (i + 4) = 1

/-- One turn of the loop, which goes on at another index. -/
inductive Turn (buf : Buf) : Nat → Scan → Nat → Scan → Prop
  | single {i : Nat} {s : Scan} : i < Corescansz → kind buf i = 1 → kind buf (i + 4) ≠ 1 →
      Turn buf i s (i + 4) ((s.read [i]).read [i + 4])
  | pair {i : Nat} {s : Scan} : i < Corescansz → CorePair buf i →
      Turn buf i s (i + 8)
        { ((s.read [i]).read [i + 4]).read [i + 1, i + 2, i + 7] with
          coreid := coreidAt buf i
          corerev := buf (i + 7) }
  | address {i : Nat} {s : Scan} : i < Corescansz → kind buf i = 5 →
      Turn buf i s (i + 4) (((s.read [i]).read [i + 1, i + 2, i + 3]).address buf i)
  | other {i : Nat} {s : Scan} : i < Corescansz → kind buf i ≠ 0xF → kind buf i ≠ 1 →
      kind buf i ≠ 5 → Turn buf i s (i + 4) (s.read [i])

/-- What the loop leaves when it ends at index `i`. -/
def ending (i : Nat) (s : Scan) : Scan :=
  if i < Corescansz then { (s.read [i]).release with returned := true } else s

/-- The loop runs turn by turn, and it ends at an end mark or behind the buffer. What
every turn preserves holds where it ends. -/
theorem corescanLoop_run {P : Nat → Scan → Prop}
    (hturn : ∀ {i s j t}, P i s → Turn buf i s j t → P j t) (h : P i s) :
    ∃ j t, P j t ∧ (j < Corescansz → kind buf j = 0xF) ∧ corescanLoop buf i s = ending j t := by
  induction i, s using corescanLoop.induct buf with
  | case1 i s hi hF =>
    refine ⟨i, s, h, fun _ => hF, ?_⟩
    unfold corescanLoop ending
    rw [if_pos hi, if_pos hi, if_pos hF]
  | case2 i s hi s₁ hF h1 s₂ hn ih =>
    obtain ⟨j, t, hP, hend, heq⟩ := ih (hturn h (.single hi h1 hn))
    refine ⟨j, t, hP, hend, ?_⟩
    rw [← heq]
    conv_lhs => unfold corescanLoop
    rw [if_pos hi, if_neg hF, if_pos h1, if_pos hn]
  | case3 i s hi s₁ hF h1 s₂ hn ih =>
    obtain ⟨j, t, hP, hend, heq⟩ := ih (hturn h (.pair hi ⟨h1, not_not.mp hn⟩))
    refine ⟨j, t, hP, hend, ?_⟩
    rw [← heq]
    conv_lhs => unfold corescanLoop
    rw [if_pos hi, if_neg hF, if_pos h1, if_neg hn]
  | case4 i s hi s₁ hF h1 h5 ih =>
    obtain ⟨j, t, hP, hend, heq⟩ := ih (hturn h (.address hi h5))
    refine ⟨j, t, hP, hend, ?_⟩
    rw [← heq]
    conv_lhs => unfold corescanLoop
    rw [if_pos hi, if_neg hF, if_neg h1, if_pos h5]
  | case5 i s hi s₁ hF h1 h5 ih =>
    obtain ⟨j, t, hP, hend, heq⟩ := ih (hturn h (.other hi hF h1 h5))
    refine ⟨j, t, hP, hend, ?_⟩
    rw [← heq]
    conv_lhs => unfold corescanLoop
    rw [if_pos hi, if_neg hF, if_neg h1, if_neg h5]
  | case6 i s hi =>
    refine ⟨i, s, h, fun hlt => absurd hlt hi, ?_⟩
    unfold corescanLoop ending
    rw [if_neg hi, if_neg hi]

/-! ## What the scan reads -/

/-- The types of the words from index `i` on. -/
def kindsFrom (buf : Buf) (i : Nat) : List Byte :=
  (List.range ((Corescansz - i) / 4)).map fun k => kind buf (i + 4 * k)

theorem kindsFrom_cons (buf : Buf) (h : i < Corescansz) (h4 : 4 ∣ i) :
    kindsFrom buf i = kind buf i :: kindsFrom buf (i + 4) := by
  have hlen : (Corescansz - i) / 4 = (Corescansz - (i + 4)) / 4 + 1 := by
    unfold Corescansz at *
    omega
  unfold kindsFrom
  rw [hlen, List.range_succ_eq_map, List.map_cons, List.map_map]
  congr 1
  apply List.map_congr_left
  intro k hk
  simp only [Function.comp_apply]
  congr 1
  omega

theorem kindsFrom_end (buf : Buf) (h : Corescansz ≤ i) : kindsFrom buf i = [] := by
  unfold kindsFrom
  rw [Nat.sub_eq_zero_of_le h]
  rfl

@[simp] theorem address_reads : (s.address buf i).reads = s.reads := by
  unfold Scan.address
  dsimp only
  split <;> rfl

@[simp] theorem address_released : (s.address buf i).released = s.released := by
  unfold Scan.address
  dsimp only
  split <;> rfl

@[simp] theorem address_returned : (s.address buf i).returned = s.returned := by
  unfold Scan.address
  dsimp only
  split <;> rfl

/-- Only indices inside the buffer were read. -/
def Scan.Inside (s : Scan) : Prop := ∀ k ∈ s.reads, k < Corescansz

theorem inside_read {ks : List Nat} :
    (s.read ks).Inside ↔ s.Inside ∧ ∀ k ∈ ks, k < Corescansz := by
  unfold Scan.Inside Scan.read
  simp only [List.mem_append]
  constructor
  · intro h
    exact ⟨fun k hk => h k (.inl hk), fun k hk => h k (.inr hk)⟩
  · rintro ⟨h, h'⟩ k (hk | hk)
    · exact h k hk
    · exact h' k hk

theorem inside_address : (s.address buf i).Inside ↔ s.Inside := by
  unfold Scan.Inside
  rw [address_reads]

theorem inside_release : s.release.Inside ↔ s.Inside := Iff.rfl

/-- A turn leaves the buffer exactly when the words from its index on are not paired,
and those from the next one on are. -/
theorem inside_turn (h4 : 4 ∣ i) (h : Turn buf i s j t) :
    4 ∣ j ∧ (t.Inside ∧ Paired (kindsFrom buf j) ↔ s.Inside ∧ Paired (kindsFrom buf i)) := by
  cases h with
  | single hi h1 hn =>
    refine ⟨by omega, ?_⟩
    rw [kindsFrom_cons buf hi h4, h1, inside_read, inside_read]
    by_cases hnext : i + 4 < Corescansz
    · rw [kindsFrom_cons buf hnext (by omega), paired_one _ hn]
      simp [hi, hnext]
    · rw [kindsFrom_end buf (Nat.le_of_not_lt hnext)]
      simp [hi, hnext, not_paired_one]
  | pair hi hp =>
    have hcore : Scan.Inside { ((s.read [i]).read [i + 4]).read [i + 1, i + 2, i + 7] with
        coreid := coreidAt buf i
        corerev := buf (i + 7) } ↔
          (((s.read [i]).read [i + 4]).read [i + 1, i + 2, i + 7]).Inside := Iff.rfl
    refine ⟨by omega, ?_⟩
    rw [kindsFrom_cons buf hi h4, hp.1, hcore, inside_read, inside_read, inside_read]
    by_cases hnext : i + 4 < Corescansz
    · have hlast : i + 7 < Corescansz := by
        unfold Corescansz at *
        omega
      have h1 : i + 1 < Corescansz := by omega
      have h2 : i + 2 < Corescansz := by omega
      rw [kindsFrom_cons buf hnext (by omega), hp.2, paired_two]
      simp [hi, hnext, h1, h2, hlast]
    · rw [kindsFrom_end buf (Nat.le_of_not_lt hnext)]
      simp [hnext, not_paired_one]
  | address hi h5 =>
    have hlast : i + 3 < Corescansz := by
      unfold Corescansz at *
      omega
    have h1 : i + 1 < Corescansz := by omega
    have h2 : i + 2 < Corescansz := by omega
    refine ⟨by omega, ?_⟩
    rw [kindsFrom_cons buf hi h4, h5, inside_address, inside_read, inside_read,
      paired_cons _ (by decide) (by decide)]
    simp [hi, h1, h2, hlast]
  | other hi hF h1 h5 =>
    refine ⟨by omega, ?_⟩
    rw [kindsFrom_cons buf hi h4, inside_read, paired_cons _ h1 hF]
    simp [hi]

/-- The scan stays inside the buffer exactly when the words are paired. -/
theorem corescanLoop_inside (buf : Buf) (h0 : s.reads = []) :
    (corescanLoop buf 0 s).Inside ↔ Paired (kindsFrom buf 0) := by
  have hstart : s.Inside := by simp [Scan.Inside, h0]
  obtain ⟨j, t, ⟨h4, hiff⟩, hF, heq⟩ := corescanLoop_run (i := 0) (s := s)
    (P := fun j t => 4 ∣ j ∧ (t.Inside ∧ Paired (kindsFrom buf j) ↔ Paired (kindsFrom buf 0)))
    (fun h hturn => ⟨(inside_turn h.1 hturn).1, (inside_turn h.1 hturn).2.trans h.2⟩)
    ⟨Nat.dvd_zero 4, by simp [hstart]⟩
  rw [heq, ← hiff]
  unfold ending
  by_cases hj : j < Corescansz
  · rw [if_pos hj, kindsFrom_cons buf hj h4, hF hj]
    have hmark : Scan.Inside { (t.read [j]).release with returned := true } ↔
        (t.read [j]).Inside := Iff.rfl
    rw [hmark, inside_read]
    simp [hj, paired_end]
  · rw [if_neg hj, kindsFrom_end buf (Nat.le_of_not_lt hj)]
    simp [paired_nil]

/-! ## What the scan stores -/

/-- The address stands in an address descriptor of a core that the field is for: the
descriptor follows the pair that names the core, and no other pair stands between. -/
structure Described (buf : Buf) (p : Place) (addr : BitVec 32) : Prop where
  aligned : addr &&& 0xFFF = 0
  follows : ∃ i j, 4 ∣ i ∧ 4 ∣ j ∧ j + 8 ≤ i ∧ i + 4 ≤ Corescansz ∧ kind buf i = 5 ∧
    addr = addrAt buf i ∧ CorePair buf j ∧ p.isOf (coreidAt buf j) ∧
    ∀ k, 4 ∣ k → j + 8 ≤ k → k < i → ¬ CorePair buf k

/-- The core that the scan is at, at index `i`: the one of the last pair. -/
def Owned (buf : Buf) (i : Nat) (s : Scan) : Prop :=
  s.coreid = 0 ∨ ∃ j, 4 ∣ j ∧ j + 8 ≤ i ∧ CorePair buf j ∧ s.coreid = coreidAt buf j ∧
    ∀ k, 4 ∣ k → j + 8 ≤ k → k < i → ¬ CorePair buf k

/-- What the scan has stored in the fields that were `ctl` before. -/
structure Recorded (buf : Buf) (ctl : Cores) (s : Scan) : Prop where
  described : ∀ p addr, (p, addr) ∈ s.stores → Described buf p addr
  fields : ∀ p, s.ctl.at p = ctl.at p ∨ (p, s.ctl.at p) ∈ s.stores

theorem addrAt_aligned (buf : Buf) (i : Nat) : addrAt buf i &&& 0xFFF = 0 := by
  have hmask : ~~~ 0xFFF#32 &&& 0xFFF = 0 := by decide
  unfold addrAt
  rw [BitVec.and_assoc, hmask]
  exact BitVec.and_zero

theorem isOf_of_placeFor {ctl : Cores} {coreid : BitVec 32} {isctl : Bool} {p : Place}
    (h : ctl.placeFor coreid isctl = some p) : p.isOf coreid := by
  unfold Cores.placeFor at h
  split_ifs at h with h1 h2 h3 h4 h5 h6 h7 h8 h9 h10 <;> cases h <;> assumption

theorem isOf_ne_zero {coreid : BitVec 32} {p : Place} (h : p.isOf coreid) : coreid ≠ 0 := by
  rintro rfl
  revert h
  cases p <;> decide

theorem note_at (ctl : Cores) (coreid : BitVec 32) (corerev : Byte) (p : Place) :
    (ctl.note coreid corerev).at p = ctl.at p := by
  unfold Cores.note
  split_ifs <;> cases p <;> rfl

theorem set_at (ctl : Cores) (p q : Place) (addr : BitVec 32) :
    (ctl.set p addr).at q = ctl.at q ∨ q = p ∧ (ctl.set p addr).at q = addr := by
  cases p <;> cases q <;> simp [Cores.set, Cores.at]

/-- The inner switch stores the address in at most one field, one of its core. -/
theorem address_spec (s : Scan) (buf : Buf) (i : Nat) :
    (s.address buf i).coreid = s.coreid ∧
      ((∃ p, p.isOf s.coreid ∧ (s.address buf i).stores = s.stores ++ [(p, addrAt buf i)] ∧
        ∀ q, (s.address buf i).ctl.at q = s.ctl.at q ∨
          q = p ∧ (s.address buf i).ctl.at q = addrAt buf i) ∨
        ((s.address buf i).stores = s.stores ∧
          ∀ q, (s.address buf i).ctl.at q = s.ctl.at q)) := by
  unfold Scan.address
  dsimp only
  split
  · rename_i p hp
    refine ⟨rfl, .inl ⟨p, isOf_of_placeFor hp, rfl, ?_⟩⟩
    intro q
    rw [note_at]
    exact set_at _ _ _ _
  · exact ⟨rfl, .inr ⟨rfl, fun q => note_at _ _ _ q⟩⟩

/-- A turn keeps the last pair and what was stored. -/
theorem recorded_turn {ctl : Cores} (h4 : 4 ∣ i) (hown : Owned buf i s)
    (hrec : Recorded buf ctl s) (h : Turn buf i s j t) : Owned buf j t ∧ Recorded buf ctl t := by
  -- A word that is no pair is passed.
  have hpass : ∀ {t : Scan}, ¬ CorePair buf i → t.coreid = s.coreid → Owned buf (i + 4) t := by
    intro t hno hid
    rcases hown with h0 | ⟨j, hj4, hj, hp, hcore, hbetween⟩
    · exact .inl (hid.trans h0)
    · refine .inr ⟨j, hj4, by omega, hp, hid.trans hcore, ?_⟩
      intro k hk4 hk hki
      by_cases hkj : k = i
      · rw [hkj]
        exact hno
      · exact hbetween k hk4 hk (by omega)
  cases h with
  | single hi h1 hn => exact ⟨hpass (fun hp => hn hp.2) rfl, hrec.1, hrec.2⟩
  | pair hi hp =>
    refine ⟨.inr ⟨i, h4, le_rfl, hp, rfl, ?_⟩, hrec.1, hrec.2⟩
    intro k hk4 hk hki
    omega
  | other hi hF h1 h5 => exact ⟨hpass (fun hp => h1 hp.1) rfl, hrec.1, hrec.2⟩
  | address hi h5 =>
    have hno : ¬ CorePair buf i := by
      rintro ⟨h1, -⟩
      rw [h5] at h1
      exact absurd h1 (by decide)
    have hi4 : i + 4 ≤ Corescansz := by
      unfold Corescansz at *
      omega
    obtain ⟨hid, hstore⟩ := address_spec ((s.read [i]).read [i + 1, i + 2, i + 3]) buf i
    refine ⟨hpass hno hid, ?_⟩
    rcases hstore with ⟨p, hisOf, hstores, hfields⟩ | ⟨hstores, hfields⟩
    · constructor
      · intro q addr hq
        rw [hstores] at hq
        rcases List.mem_append.mp hq with hq | hq
        · exact hrec.described q addr hq
        · obtain ⟨rfl, rfl⟩ : q = p ∧ addr = addrAt buf i := by simpa using hq
          refine ⟨addrAt_aligned buf i, ?_⟩
          rcases hown with h0 | ⟨j, hj4, hj, hpair, hcore, hbetween⟩
          · exact absurd h0 (isOf_ne_zero hisOf)
          · have hsame : ((s.read [i]).read [i + 1, i + 2, i + 3]).coreid = s.coreid := rfl
            rw [hsame, hcore] at hisOf
            exact ⟨i, j, h4, hj4, hj, hi4, h5, rfl, hpair, hisOf, hbetween⟩
      · intro q
        rw [hstores]
        rcases hfields q with hold | ⟨rfl, hnew⟩
        · rw [hold]
          exact (hrec.fields q).imp id (List.mem_append_left _)
        · rw [hnew]
          exact .inr (by simp)
    · constructor
      · intro q addr hq
        rw [hstores] at hq
        exact hrec.described q addr hq
      · intro q
        rw [hstores, hfields q]
        exact hrec.fields q

/-- The buffer is not given back inside the loop, and the loop goes on. -/
def Held (s : Scan) : Prop := s.released = 0 ∧ s.returned = false

theorem held_turn (hs : Held s) (h : Turn buf i s j t) : Held t := by
  cases h with
  | single hi h1 hn => exact hs
  | pair hi hp => exact hs
  | other hi hF h1 h5 => exact hs
  | address hi h5 =>
    unfold Held
    rw [address_released, address_returned]
    exact hs

/-! ## The law of the scan -/

/-- The scan reads its buffer only, gives it back once, and stores addresses of cores. -/
structure ScanSafe (buf : Buf) (ctl : Cores) (s : Scan) : Prop where
  inside : s.Inside
  once : s.released = 1
  recorded : Recorded buf ctl s

/-- The table that `corescan` reads from the chip at address `r`. -/
def tableAt (answer : Answer) (mem : Buf) (chip : Chip) (r : BitVec 32) : List Byte :=
  (sbmem answer chip false (mem.first Corescansz) r).2

/-- The types of the 128 words of a table. -/
def tableKinds (table : List Byte) : List Byte :=
  (List.range 128).map fun k => table.getD (4 * k) 0 &&& 0xF

theorem kindsFrom_fill (mem : Buf) {table : List Byte} (h : table.length = Corescansz) :
    kindsFrom (mem.fill table) 0 = tableKinds table := by
  unfold kindsFrom tableKinds
  apply List.map_congr_left
  intro k hk
  have hlt : 4 * k < table.length := by
    have := List.mem_range.mp hk
    unfold Corescansz at *
    omega
  unfold kind Buf.fill
  rw [Nat.zero_add, List.getD_eq_getElem _ _ hlt, List.getD_eq_getElem _ _ hlt]

theorem tableAt_length (answer : Answer) (mem : Buf) (chip : Chip) (r : BitVec 32) :
    (tableAt answer mem chip r).length = Corescansz := by
  have hcopied : Copied answer false chip (sbmem answer chip false (mem.first Corescansz) r) r
      (mem.first Corescansz) := sbmem_copied r _
  obtain ⟨-, hlen⟩ := hcopied
  unfold tableAt
  rw [hlen]
  simp [Buf.first]

theorem corescan_eq (answer : Answer) (mem : Buf) (chip : Chip) (ctl : Cores) (r : BitVec 32) :
    (corescan answer (some mem) chip ctl r).2 =
      if (corescanLoop (mem.fill (tableAt answer mem chip r)) 0
          ⟨ctl, 0, 0, [], [], 0, false⟩).returned
      then corescanLoop (mem.fill (tableAt answer mem chip r)) 0 ⟨ctl, 0, 0, [], [], 0, false⟩
      else (corescanLoop (mem.fill (tableAt answer mem chip r)) 0
        ⟨ctl, 0, 0, [], [], 0, false⟩).release := by
  unfold corescan tableAt
  dsimp only

/-- The memory behind the buffer and the addresses stored before play no part: only a
table that ends in the first word of a pair makes the scan read beyond it. -/
theorem corescan_safe_iff (answer : Answer) (mem : Buf) (chip : Chip) (ctl : Cores)
    (r : BitVec 32) :
    ScanSafe (mem.fill (tableAt answer mem chip r)) ctl
        (corescan answer (some mem) chip ctl r).2 ↔
      Paired (tableKinds (tableAt answer mem chip r)) := by
  have hkinds := kindsFrom_fill mem (tableAt_length answer mem chip r)
  rw [corescan_eq, ← hkinds]
  generalize mem.fill (tableAt answer mem chip r) = buf
  set s₀ : Scan := ⟨ctl, 0, 0, [], [], 0, false⟩ with hs₀
  have hinside := corescanLoop_inside buf (s := s₀) rfl
  obtain ⟨j, t, ⟨-, -, hheld, hrec⟩, hF, heq⟩ := corescanLoop_run (i := 0) (s := s₀)
    (P := fun j t => 4 ∣ j ∧ Owned buf j t ∧ Held t ∧ Recorded buf ctl t)
    (fun h hturn => ⟨(inside_turn h.1 hturn).1, (recorded_turn h.1 h.2.1 h.2.2.2 hturn).1,
      held_turn h.2.2.1 hturn, (recorded_turn h.1 h.2.1 h.2.2.2 hturn).2⟩)
    ⟨Nat.dvd_zero 4, .inl rfl, ⟨rfl, rfl⟩, by simp [hs₀], fun p => .inl rfl⟩
  rw [← hinside]
  constructor
  · rintro ⟨hin, -, -⟩
    split at hin
    · exact hin
    · exact inside_release.mp hin
  · intro hin
    rw [heq] at hin ⊢
    unfold ending at *
    by_cases hj : j < Corescansz
    · rw [if_pos hj] at hin ⊢
      refine ⟨hin, ?_, hrec.described, hrec.fields⟩
      simp [Scan.read, Scan.release, hheld.1]
    · rw [if_neg hj] at hin ⊢
      simp only [hheld.2, Bool.false_eq_true, if_false]
      refine ⟨hin, ?_, hrec.described, hrec.fields⟩
      simp [Scan.release, hheld.1]

/-- The scan reads its table only exactly when the table has an end mark in front of its
last word, or the words of type 1 at its end come in pairs. In every other respect it is
safe for every table. -/
theorem the_core_scan_stays_inside_iff (answer : Answer) (mem : Buf) (chip : Chip) (ctl : Cores)
    (r : BitVec 32) :
    ScanSafe (mem.fill (tableAt answer mem chip r)) ctl
        (corescan answer (some mem) chip ctl r).2 ↔
      0xF ∈ (tableKinds (tableAt answer mem chip r)).dropLast ∨
        ((tableKinds (tableAt answer mem chip r)).rtakeWhile (· == 1)).length % 2 = 0 :=
  corescan_safe_iff answer mem chip ctl r

/-- A chip whose table is all zeros up to its last word, which names a core. -/
def cutChip : Chip := { blankChip with mem := fun a => if a = 0x181091FC then 1 else 0 }

/-- A `Ctlr` before the scan. -/
def noCores : Cores := ⟨0, 0, 0, 0, 0, 0, 0, 0, 0, 0⟩

/-- The table that `honest` memory holds. -/
theorem tableAt_honest (mem : Buf) (chip : Chip) (r : BitVec 32) (h : r.toNat + 512 ≤ 2 ^ 32) :
    tableAt honest mem chip r = (List.range 512).map fun i => chip.mem (r + BitVec.ofNat 32 i) := by
  have hlen : (mem.first Corescansz).length = 512 := by simp [Buf.first, Corescansz]
  have hexact := (sbmem_is_exact chip (mem.first Corescansz) r (by rw [hlen]; exact h)).2.2.2
  rw [hlen] at hexact
  exact hexact

/-- The scan of its table reads behind the buffer. -/
theorem the_core_scan_leaves_its_buffer :
    ¬ ScanSafe (Buf.fill (fun _ => 0) (tableAt honest (fun _ => 0) cutChip 0x18109000)) noCores
      (corescan honest (some fun _ => 0) cutChip noCores 0x18109000).2 := by
  rw [corescan_safe_iff, tableAt_honest _ _ _ (by decide)]
  unfold Paired
  decide +kernel

end rpi_wifi.ether4330.cores
