-- The law of the settings' upload: the first piece of the file is condensed and written to
-- the end of the chip's memory. So the settings are there exactly when that piece condenses
-- to what the whole file does.
import RpiWifi.Settings

namespace rpi_wifi.ether4330.settings

open plibc transfers pieces

variable {answer : Answer} {files : Files} {buf cbuf : Buf} {ctl : Loader} {file : CString}
  {f : FileInfo}

/-! ## Texts and buffers -/

/-- `condense` on a buffer that holds the text. -/
def condenseText (text : List Byte) : List Byte :=
  let r := condense (fun i => text.getD i 0) text.length
  r.1.first r.2

theorem first_text (text : List Byte) : Buf.first (fun i => text.getD i 0) text.length = text := by
  unfold Buf.first
  apply List.ext_getElem
  · simp
  · intro i _ hi
    simp [hi]

/-- What lies behind the text in the buffer plays no part. -/
theorem condense_text (buf : Buf) (n : Nat) :
    (condense buf n).1.first (condense buf n).2 = condenseText (buf.first n) := by
  unfold condenseText
  dsimp only
  rw [condense_first, condense_first, first_text]

theorem condense_whole (buf : Buf) (n : Nat) : (condense buf n).2 % 4 = 0 := by
  unfold condense
  dsimp only
  rw [zeroPad_snd]
  exact Nat.mul_mod_left _ _

theorem zeroPad_whole (buf : Buf) {n : Nat} (h : n % 4 = 0) : zeroPad buf n = (buf, n) := by
  unfold zeroPad
  rw [if_pos h]

/-- The text grows by its last NULs and their padding at most. -/
theorem condenseText_length (text : List Byte) : (condenseText text).length ≤ text.length + 5 := by
  have hop := (scanned_behind (fun i => text.getD i 0) text.length).op
  have hend : condense (fun i => text.getD i 0) text.length =
      zeroPad ((Condense.close (scanned (fun i => text.getD i 0) text.length)).put 0).buf
        ((Condense.close (scanned (fun i => text.getD i 0) text.length)).put 0).op := rfl
  have hclose : (Condense.close (scanned (fun i => text.getD i 0) text.length)).op ≤
      text.length + 1 := by
    unfold Condense.close
    split
    · exact Nat.succ_le_succ hop
    · exact Nat.le_succ_of_le hop
  have hput : ∀ s : Condense, (s.put 0).op = s.op + 1 := fun _ => rfl
  unfold condenseText
  dsimp only
  rw [first_length, hend, zeroPad_snd, hput]
  omega

/-! ## What the upload does -/

/-- Where settings of this length begin. -/
def settingsBase (ctl : Loader) (n : Nat) : BitVec 32 :=
  ctl.rambase + (ctl.socramsize - BitVec.ofNat 32 n - 4)

theorem transferLoop_config {s : Upload} (h0 : s.off = 0) (hne : f.data ≠ []) :
    let c := condenseText (f.data.take Uploadsz)
    let t := transferLoop answer f ctl true s
    t.chip.mem = store s.chip.mem (upFrom (settingsBase ctl c.length)) c ∧
      t.buf.first t.n = c ∧ ctl.rambase + t.off = settingsBase ctl c.length := by
  have hsize : s.off.toNat < f.size := by
    rw [h0]
    exact List.length_pos_iff.mpr hne
  have hread : (read_file_in_buffer f s.buf Uploadsz s.off).1 ≠ 0 := by
    rw [Ne, read_eq_zero_iff]
    omega
  obtain ⟨hfirst, -⟩ := read_spec f s.buf s.off hsize
  have hpiece : f.piece s.off.toNat = f.data.take Uploadsz := by
    rw [h0]
    rfl
  unfold transferLoop
  dsimp only
  rw [dif_neg hread, if_pos rfl]
  rw [hpiece] at hfirst
  generalize read_file_in_buffer f s.buf Uploadsz s.off = r at hfirst
  have htext := condense_text r.2 r.1
  have hlen := first_length (condense r.2 r.1).1 (condense r.2 r.1).2
  rw [hfirst] at htext
  rw [htext] at hlen
  rw [zeroPad_whole _ (condense_whole r.2 r.1)]
  dsimp only
  rw [htext, ← hlen]
  have hcopy : Copied answer true s.chip (sbmem answer s.chip true
      (condenseText (f.data.take Uploadsz))
      (settingsBase ctl (condenseText (f.data.take Uploadsz)).length)) _ _ := sbmem_copied _ _
  exact ⟨hcopy.1.mem, rfl, rfl⟩

/-- The settings of one piece. -/
theorem piece_length (f : FileInfo) :
    (condenseText (f.data.take Uploadsz)).length ≤ Uploadsz + 5 := by
  have hle := condenseText_length (f.data.take Uploadsz)
  have htake := List.length_take_le Uploadsz f.data
  omega

/-- The settings of a file that is not empty. -/
theorem upload_config (hf : findfirmware files file = some f) (hne : f.data ≠ []) :
    let c := condenseText (f.data.take Uploadsz)
    let r := upload answer files (some buf) cbuf ctl file true
    r.1.chip.mem = store ctl.chip.mem (upFrom (settingsBase ctl c.length)) c ∧
      r.1.rambase = ctl.rambase ∧ r.1.socramsize = ctl.socramsize ∧
      (0 ≤ r.2 → r.2 = c.length) ∧ (answer = honest → r.2 = c.length) := by
  obtain ⟨hmem, hfirst, hbase⟩ := @transferLoop_config answer ctl f
    ⟨ctl.chip, buf, ctl.resetvec, 0, 0⟩ rfl hne
  have hup : upload answer files (some buf) cbuf ctl file true =
      let t := transferLoop answer f ctl true ⟨ctl.chip, buf, ctl.resetvec, 0, 0⟩
      let v := compareConfig answer ctl t cbuf
      ({ ctl with chip := v.1.chip, resetvec := v.1.resetvec }, if v.2 then (v.1.n : Int) else -1) := by
    unfold upload
    rw [hf]
    rfl
  rw [hup]
  generalize transferLoop answer f ctl true ⟨ctl.chip, buf, ctl.resetvec, 0, 0⟩ = t at *
  have hlen := piece_length f
  generalize condenseText (f.data.take Uploadsz) = c at *
  have hn : t.n = c.length := by rw [← hfirst, first_length]
  have hcopy : Copied answer false t.chip (sbmem answer t.chip false (cbuf.first t.n)
      (ctl.rambase + t.off)) _ _ := sbmem_copied _ _
  obtain ⟨hfetched, hgot⟩ := hcopy
  unfold compareConfig
  dsimp only
  refine ⟨?_, rfl, rfl, ?_, ?_⟩
  · rw [hfetched.mem]
    exact hmem
  · intro h0
    by_cases hok : memcmp (t.buf.first t.n) (sbmem answer t.chip false (cbuf.first t.n)
        (ctl.rambase + t.off)).2 = 0
    · rw [if_pos (decide_eq_true hok), hn]
    · rw [if_neg (by simpa using hok)] at h0
      cases h0
  · intro hans
    have hinj : ∀ i j, i < c.length → j < c.length →
        upFrom (settingsBase ctl c.length) i = upFrom (settingsBase ctl c.length) j → i = j := by
      intro i j hi hj
      unfold Uploadsz at hlen
      exact upFrom_inj (by omega) (by omega)
    have hback := store_read_back ctl.chip.mem (upFrom (settingsBase ctl c.length)) c hinj
    have htruth := hfetched.truth hans
    rw [hgot, first_length, hmem, hbase, hn, hback] at htruth
    rw [hn, hbase, htruth, ← hn, hfirst, memcmp_self]
    simp

/-- Nothing is written for an empty file, and it returns 0. -/
theorem upload_empty (hf : findfirmware files file = some f) (hempty : f.data = []) :
    (upload answer files (some buf) cbuf ctl file true).2 = 0 := by
  have hsize : f.size ≤ (0 : BitVec 32).toNat := by
    unfold FileInfo.size
    rw [hempty]
    exact Nat.zero_le _
  have hloop : transferLoop answer f ctl true ⟨ctl.chip, buf, ctl.resetvec, 0, 0⟩ =
      ⟨ctl.chip, buf, ctl.resetvec, 0, 0⟩ := by
    unfold transferLoop
    dsimp only
    rw [dif_pos ((read_eq_zero_iff f buf Uploadsz 0).mpr hsize)]
  unfold upload
  rw [hf]
  dsimp only
  rw [hloop]
  rfl

/-! ## The token -/

/-- The number of words is in the lower half, and its complement in the upper one. -/
theorem lengthToken_halves {n : Nat} (h : n < 2 ^ 18) :
    (lengthToken n).toNat % 0x10000 = n / 4 ∧ (lengthToken n).toNat / 0x10000 = 0xFFFF - n / 4 := by
  have hm : (BitVec.ofInt 32 n / 4).toNat = n / 4 := by
    have h4 : (4 : BitVec 32).toNat = 4 := rfl
    have hofInt : BitVec.ofInt 32 (n : Int) = BitVec.ofNat 32 n := BitVec.ofInt_natCast 32 n
    rw [hofInt, BitVec.toNat_udiv, BitVec.toNat_ofNat, h4]
    omega
  unfold lengthToken
  dsimp only
  generalize BitVec.ofInt 32 (n : Int) / 4 = m at hm
  have hlow : (m &&& 0xFFFF#32).toNat = m.toNat % 2 ^ 16 := by
    rw [BitVec.toNat_and]
    exact Nat.and_two_pow_sub_one_eq_mod _ 16
  have hhigh : (~~~ m <<< 16).toNat = (0xFFFF - n / 4) * 2 ^ 16 := by
    rw [BitVec.toNat_shiftLeft, BitVec.toNat_not, Nat.shiftLeft_eq, hm]
    omega
  have hor := Nat.two_pow_add_eq_or_of_lt (i := 16) (b := (m &&& 0xFFFF#32).toNat) (by omega)
    (0xFFFF - n / 4)
  rw [Nat.mul_comm, ← hhigh, Nat.lor_comm, ← BitVec.toNat_or, hhigh, hlow, hm] at hor
  change (m &&& 0xFFFF#32 ||| ~~~ m <<< 16).toNat % 0x10000 = n / 4 ∧
    (m &&& 0xFFFF#32 ||| ~~~ m <<< 16).toNat / 0x10000 = 0xFFFF - n / 4
  rw [← hor]
  omega

/-! ## The law -/

/-- The settings end in front of the last word of the memory, they are what the text
condenses to, and the token that is written behind them has their length. -/
structure WholeFile (answer : Answer) (ctl : Loader) (text : List Byte) (r : Loader × Int) :
    Prop where
  result : r.2 = (condenseText text).length
  bytes : ∀ i (hi : i < (condenseText text).length),
    r.1.chip.mem (ctl.rambase + ctl.socramsize - 4 - BitVec.ofNat 32 (condenseText text).length +
      BitVec.ofNat 32 i) = (condenseText text)[i]
  token : ∀ i < 4,
    some ((writeToken answer r.1 (lengthToken r.2)).1.mem (ctl.rambase + ctl.socramsize - 4 +
      BitVec.ofNat 32 i)) = (put4 (lengthToken r.2))[i]?
  low : (lengthToken r.2).toNat % 0x10000 = r.2.toNat / 4
  high : (lengthToken r.2).toNat / 0x10000 = 0xFFFF - r.2.toNat / 4

theorem settingsBase_add (n i : Nat) :
    ctl.rambase + ctl.socramsize - 4 - BitVec.ofNat 32 n + BitVec.ofNat 32 i =
      upFrom (settingsBase ctl n) i := by
  unfold settingsBase upFrom
  bv_omega

theorem writeToken_bytes {ctl ctl' : Loader} (hbase : ctl'.rambase = ctl.rambase)
    (hsize : ctl'.socramsize = ctl.socramsize) (n : BitVec 32) {i : Nat} (hi : i < 4) :
    some ((writeToken answer ctl' n).1.mem (ctl.rambase + ctl.socramsize - 4 + BitVec.ofNat 32 i)) =
      (put4 n)[i]? := by
  have hcopy : Copied answer true ctl'.chip (writeToken answer ctl' n)
      (ctl'.rambase + ctl'.socramsize - 4) (put4 n) := sbmem_copied _ _
  rw [hbase, hsize] at hcopy
  have hlen : (put4 n).length = 4 := rfl
  have hinj : ∀ j k, j < (put4 n).length → k < (put4 n).length →
      upFrom (ctl.rambase + ctl.socramsize - 4) j = upFrom (ctl.rambase + ctl.socramsize - 4) k →
        j = k := fun j k hj hk => upFrom_inj (by omega) (by omega)
  have hat := store_at ctl'.chip.mem (upFrom (ctl.rambase + ctl.socramsize - 4)) (put4 n) hinj i
    (by omega)
  rw [← hcopy.1.mem] at hat
  rw [List.getElem?_eq_getElem (by omega), ← hat]
  rfl

/-- The first piece is what the whole file is for: its settings are at the end of the memory. -/
theorem whole_of_piece {r : Loader × Int} {c : List Byte} {text : List Byte}
    (hc : condenseText text = c) (hlen : c.length ≤ Uploadsz + 5)
    (hmem : r.1.chip.mem = store ctl.chip.mem (upFrom (settingsBase ctl c.length)) c)
    (hbase : r.1.rambase = ctl.rambase) (hsize : r.1.socramsize = ctl.socramsize)
    (hresult : r.2 = c.length) : WholeFile answer ctl text r := by
  subst hc
  unfold Uploadsz at hlen
  have hhalves := lengthToken_halves (n := (condenseText text).length) (by omega)
  have hinj : ∀ i j, i < (condenseText text).length → j < (condenseText text).length →
      upFrom (settingsBase ctl (condenseText text).length) i =
        upFrom (settingsBase ctl (condenseText text).length) j → i = j :=
    fun i j hi hj => upFrom_inj (by omega) (by omega)
  refine ⟨hresult, ?_, fun i hi => writeToken_bytes hbase hsize _ hi, ?_, ?_⟩
  · intro i hi
    rw [settingsBase_add, hmem]
    exact store_at _ _ _ hinj i hi
  · rw [hresult]
    exact hhalves.1
  · rw [hresult]
    exact hhalves.2

/-- An upload of settings that succeeds leaves the whole file condensed, exactly for a file
that is not empty and whose first 2048 bytes condense to what all of it does. -/
theorem the_settings_are_whole_iff (files : Files) (buf cbuf : Buf) (ctl : Loader) (file : CString)
    (f : FileInfo) (hf : findfirmware files file = some f) :
    (∀ answer, 0 ≤ (upload answer files (some buf) cbuf ctl file true).2 →
      WholeFile answer ctl f.data (upload answer files (some buf) cbuf ctl file true)) ↔
      f.data ≠ [] ∧ condenseText (f.data.take Uploadsz) = condenseText f.data := by
  have hlen := piece_length f
  constructor
  · intro h
    have hne : f.data ≠ [] := by
      intro hempty
      have h0 := @upload_empty honest files buf cbuf ctl file f hf hempty
      have hresult := (h honest h0.ge).result
      rw [h0, hempty] at hresult
      revert hresult
      decide +kernel
    obtain ⟨hmem, -, -, -, hok⟩ := @upload_config honest files buf cbuf ctl file f hf hne
    have hresult := hok rfl
    have hwhole := h honest (by rw [hresult]; exact Int.natCast_nonneg _)
    have hsame : (condenseText (f.data.take Uploadsz)).length = (condenseText f.data).length :=
      Int.natCast_inj.mp (hresult.symm.trans hwhole.result)
    refine ⟨hne, List.ext_getElem hsame ?_⟩
    intro i hi hi'
    have hat := hwhole.bytes i hi'
    rw [settingsBase_add, hmem, ← hsame] at hat
    unfold Uploadsz at hlen hi hat ⊢
    rw [← hat]
    exact (store_at _ _ _ (fun j k hj hk => upFrom_inj (by omega) (by omega)) i hi).symm
  · rintro ⟨hne, hsame⟩ answer h0
    obtain ⟨hmem, hbase, hsize, hresult, -⟩ := @upload_config answer files buf cbuf ctl file f hf hne
    exact whole_of_piece hsame.symm hlen hmem hbase hsize (hresult h0)

/-- One short line, as the settings of the chip. -/
def shortFiles : Files := ⟨emptyFile, ⟨[97, 61, 49, 10], by decide⟩⟩

theorem a_short_line_is_whole :
    findfirmware shortFiles (cstr "brcmfmac43430-sdio.txt") = some shortFiles.text_file ∧
      ∀ answer, 0 ≤ (upload answer shortFiles (some fun _ => 0) (fun _ => 0) (loaderOf 43430 1)
        (cstr "brcmfmac43430-sdio.txt") true).2 →
          WholeFile answer (loaderOf 43430 1) [97, 61, 49, 10]
            (upload answer shortFiles (some fun _ => 0) (fun _ => 0) (loaderOf 43430 1)
              (cstr "brcmfmac43430-sdio.txt") true) := by
  have hfound : findfirmware shortFiles (cstr "brcmfmac43430-sdio.txt") =
      some shortFiles.text_file := by
    rfl
  have hwhole := the_settings_are_whole_iff shortFiles (fun _ => 0) (fun _ => 0)
    (loaderOf 43430 1) (cstr "brcmfmac43430-sdio.txt") shortFiles.text_file hfound
  exact ⟨hfound, hwhole.mpr ⟨by decide, rfl⟩⟩

/-- A line of plain characters is kept. -/
theorem condenseText_line {text : List Byte} (hne : text ≠ [])
    (hplain : ∀ c ∈ text, isBreak c = false ∧ c ≠ 13 ∧ c ≠ 35) :
    condenseText text = pad4 (text ++ [0] ++ [0]) := by
  have hsplit : text.splitOnP isBreak = [text] :=
    List.splitOnP_eq_singleton fun c hc => (hplain c hc).1
  have hclosed : closed isBreak text = [] := by
    unfold closed
    rw [hsplit]
    rfl
  have hlast : lastLine text = text := by
    unfold lastLine opened
    simp only [hsplit, List.getLast_singleton]
  have h35 : 35 ∉ text := fun hmem => (hplain 35 hmem).2.2 rfl
  have hclean : clean text = text := by
    rw [clean_whole h35, List.filter_eq_self]
    intro c hc
    exact bne_iff_ne.mpr (hplain c hc).2.1
  have hentry : entry text = text ++ [0] := if_neg hne
  unfold condenseText
  dsimp only
  rw [condense_first, first_text, hlast, hclosed, if_neg h35, hclean, hentry]
  rfl

/-- A line of 4096 characters, of which 2048 are uploaded. -/
theorem a_long_file_is_cut :
    ¬ ∀ (answer : Answer) (files : Files) (buf cbuf : Buf) (ctl : Loader) (file : CString)
      (f : FileInfo), findfirmware files file = some f →
        (condenseText f.data).length + 4 ≤ ctl.socramsize.toNat →
          0 ≤ (upload answer files (some buf) cbuf ctl file true).2 →
            WholeFile answer ctl f.data (upload answer files (some buf) cbuf ctl file true) := by
  intro h
  have hplain : ∀ n, ∀ c ∈ List.replicate n (97 : Byte), isBreak c = false ∧ c ≠ 13 ∧ c ≠ 35 := by
    intro n c hc
    rw [List.eq_of_mem_replicate hc]
    decide
  have hlength : ∀ n, n ≠ 0 → (condenseText (List.replicate n (97 : Byte))).length =
      (n + 5) / 4 * 4 := by
    intro n hn
    rw [condenseText_line (by simpa using hn) (hplain n), pad4_length]
    simp
  have hfits : (List.replicate 4096 (97 : Byte)).length + Uploadsz ≤ 2 ^ 32 := by
    rw [List.length_replicate]
    decide
  set f : FileInfo := ⟨List.replicate 4096 97, hfits⟩ with hfile
  have hfound : findfirmware ⟨emptyFile, f⟩ (cstr "brcmfmac43430-sdio.txt") = some f := by
    rfl
  have hne : f.data ≠ [] := by
    apply List.ne_nil_of_length_pos
    rw [hfile, List.length_replicate]
    decide
  obtain ⟨-, -, -, -, hok⟩ := @upload_config honest ⟨emptyFile, f⟩ (fun _ => 0) (fun _ => 0)
    (loaderOf 43430 1) _ f hfound hne
  have hcut : f.data.take Uploadsz = List.replicate 2048 97 := by
    rw [hfile]
    exact List.take_replicate
  have hcutsize := hok rfl
  rw [hcut, hlength 2048 (by decide)] at hcutsize
  have hfull : (condenseText f.data).length = 4100 := hlength 4096 (by decide)
  have hroom : (condenseText f.data).length + 4 ≤ (loaderOf 43430 1).socramsize.toNat := by
    rw [hfull]
    decide
  have hwhole := h honest ⟨emptyFile, f⟩ (fun _ => 0) (fun _ => 0) (loaderOf 43430 1) _ f hfound
    hroom (by rw [hcutsize]; exact Int.natCast_nonneg _)
  have hresult := hwhole.result
  rw [hcutsize, hfull] at hresult
  cases hresult

/-! ## The bytes behind the first piece -/

/-- What the loop has written for a text. -/
def body (text : List Byte) : List Byte :=
  ((closed isBreak text).map clean).flatMap entry ++ clean (lastLine text)

/-- The NULs that are written at the end: in a comment, and behind an empty line, only one. -/
def ending (text : List Byte) : List Byte :=
  if 35 ∈ lastLine text ∨ clean (lastLine text) = [] then [0] else [0, 0]

/-- Bytes that leave nothing but the end of a line: `skipping` says that they come in a
comment. -/
def Unseen (skipping : Bool) : List Byte → Prop
  | [] => True
  | c :: cs =>
    if isBreak c then Unseen false cs
    else if c = 35 then Unseen true cs
    else (c = 13 ∨ skipping = true) ∧ Unseen skipping cs

/-- The last line of the text is in a comment. -/
def inComment (text : List Byte) : Bool := decide (35 ∈ lastLine text)

theorem condenseText_eq (text : List Byte) : condenseText text = pad4 (body text ++ ending text) := by
  unfold condenseText body ending
  dsimp only
  rw [condense_first, first_text]
  by_cases hskip : 35 ∈ lastLine text
  · rw [if_pos hskip, if_pos (.inl hskip)]
  · rw [if_neg hskip]
    by_cases hempty : clean (lastLine text) = []
    · rw [if_pos (.inr hempty), hempty]
      rfl
    · rw [if_neg (not_or.mpr ⟨hskip, hempty⟩), entry, if_neg hempty]
      simp

theorem body_break (text : List Byte) {c : Byte} (hc : isBreak c = true) :
    body (text ++ [c]) = body text ++ (if clean (lastLine text) = [] then [] else [0]) ∧
      lastLine (text ++ [c]) = [] := by
  have hopen : lastLine (text ++ [c]) = [] := opened_cut hc
  refine ⟨?_, hopen⟩
  unfold body
  rw [closed_cut hc, hopen, List.map_append, List.flatMap_append]
  change _ ++ [opened isBreak text].flatMap (entry ∘ clean) ++ [] = _
  simp only [List.flatMap_singleton, Function.comp, List.append_nil, List.append_assoc]
  change _ ++ entry (clean (lastLine text)) = _
  congr 1
  unfold entry
  split_ifs with hempty
  · rw [hempty]
    rfl
  · rfl

theorem body_more (text : List Byte) {c : Byte} (hc : isBreak c = false) :
    body (text ++ [c]) =
        body text ++ (if c = 35 ∨ c = 13 ∨ 35 ∈ lastLine text then [] else [c]) ∧
      lastLine (text ++ [c]) = lastLine text ++ [c] ∧
      clean (lastLine (text ++ [c])) =
        clean (lastLine text) ++ (if c = 35 ∨ c = 13 ∨ 35 ∈ lastLine text then [] else [c]) := by
  have hopen : lastLine (text ++ [c]) = lastLine text ++ [c] := opened_more hc
  have hclean : clean (lastLine text ++ [c]) =
      clean (lastLine text) ++ (if c = 35 ∨ c = 13 ∨ 35 ∈ lastLine text then [] else [c]) := by
    by_cases hskip : 35 ∈ lastLine text
    · rw [clean_skipped hskip, if_pos (.inr (.inr hskip)), List.append_nil]
    · rw [clean_append hskip]
      simp only [hskip, or_false]
  refine ⟨?_, hopen, by rw [hopen, hclean]⟩
  unfold body
  rw [closed_more hc, hopen, hclean, List.append_assoc]

/-- The first of the bytes is not seen, and the rest is not seen behind it. -/
theorem unseen_cons (a : List Byte) (c : Byte) (b : List Byte) :
    Unseen (inComment a) (c :: b) ↔
      (isBreak c = true ∨ c = 35 ∨ c = 13 ∨ 35 ∈ lastLine a) ∧ Unseen (inComment (a ++ [c])) b := by
  rw [Unseen]
  by_cases hbreak : isBreak c = true
  · have hnext : inComment (a ++ [c]) = false := by
      unfold inComment
      rw [(body_break a hbreak).2]
      rfl
    rw [if_pos hbreak, hnext]
    exact (and_iff_right (.inl hbreak)).symm
  · have hmem : 35 ∈ lastLine (a ++ [c]) ↔ 35 ∈ lastLine a ∨ c = 35 := by
      rw [(body_more a (eq_false_of_ne_true hbreak)).2.1, List.mem_append, List.mem_singleton,
        eq_comm (a := 35)]
    rw [if_neg hbreak]
    by_cases h35 : c = 35
    · have hnext : inComment (a ++ [c]) = true := decide_eq_true (hmem.mpr (.inr h35))
      rw [if_pos h35, hnext]
      exact (and_iff_right (.inr (.inl h35))).symm
    · have hnext : inComment (a ++ [c]) = inComment a := by
        unfold inComment
        simp only [hmem, h35, or_false]
      rw [if_neg h35, hnext]
      refine and_congr ⟨fun hgone => ?_, fun hgone => ?_⟩ Iff.rfl
      · exact .inr (.inr (hgone.imp_right of_decide_eq_true))
      · exact ((hgone.resolve_left hbreak).resolve_left h35).imp_right decide_eq_true

/-- Bytes that are not seen add a NUL to the body at most. -/
theorem body_unseen {a b : List Byte} (h : Unseen (inComment a) b) :
    body (a ++ b) = body a ++
        (if clean (lastLine a) ≠ [] ∧ ∃ c ∈ b, isBreak c = true then [0] else []) ∧
      (clean (lastLine (a ++ b)) = [] ↔
        clean (lastLine a) = [] ∨ ∃ c ∈ b, isBreak c = true) ∧
      ((∀ c ∈ b, isBreak c = false) → lastLine (a ++ b) = lastLine a ++ b) := by
  induction b generalizing a with
  | nil => simp
  | cons c b ih =>
    obtain ⟨hgone, hrest⟩ := (unseen_cons a c b).mp h
    obtain ⟨hih, hline, hlast⟩ := ih hrest
    have hsplit : a ++ c :: b = (a ++ [c]) ++ b := by rw [List.append_assoc, List.singleton_append]
    rw [hsplit]
    by_cases hbreak : isBreak c = true
    · obtain ⟨hbody, hopen⟩ := body_break a hbreak
      have hempty : clean (lastLine (a ++ [c])) = [] := by rw [hopen]; rfl
      refine ⟨?_, ?_, fun hall => ?_⟩
      · rw [hih, hbody]
        by_cases hclean : clean (lastLine a) = [] <;> simp [hempty, hclean, hbreak]
      · rw [hline]
        simp [hempty, hbreak]
      · have hnot := hall c List.mem_cons_self
        rw [hbreak] at hnot
        cases hnot
    · have hmore : isBreak c = false := eq_false_of_ne_true hbreak
      obtain ⟨hbody, hopen, hclean⟩ := body_more a hmore
      rw [if_pos (hgone.resolve_left hbreak), List.append_nil] at hbody hclean
      refine ⟨?_, ?_, fun hall => ?_⟩
      · rw [hih, hbody, hclean]
        simp [hmore]
      · rw [hline, hclean]
        simp [hmore]
      · rw [hlast fun d hd => hall d (List.mem_cons_of_mem c hd), hopen, List.append_assoc]
        rfl

theorem body_step (a : List Byte) (c : Byte) : ∃ w, body (a ++ [c]) = body a ++ w := by
  by_cases hbreak : isBreak c = true
  · exact ⟨_, (body_break a hbreak).1⟩
  · exact ⟨_, (body_more a (eq_false_of_ne_true hbreak)).1⟩

/-- A byte that is seen is in the body behind the old one. -/
theorem body_seen {a b : List Byte} (h : ¬ Unseen (inComment a) b) :
    ∃ w, body (a ++ b) = body a ++ w ∧ ∃ c ∈ w, c ≠ 0 := by
  induction b generalizing a with
  | nil => exact absurd trivial h
  | cons c b ih =>
    have hsplit : a ++ c :: b = (a ++ [c]) ++ b := by rw [List.append_assoc, List.singleton_append]
    rw [hsplit]
    rw [unseen_cons, not_and_or] at h
    by_cases hrest : Unseen (inComment (a ++ [c])) b
    · -- The byte itself is seen.
      have hseen := h.resolve_right (not_not.mpr hrest)
      push Not at hseen
      obtain ⟨hbreak, h35, h13, hline⟩ := hseen
      have hmore : isBreak c = false := eq_false_of_ne_true hbreak
      have hbody := (body_more a hmore).1
      rw [if_neg (not_or.mpr ⟨h35, not_or.mpr ⟨h13, hline⟩⟩)] at hbody
      have hzero : c ≠ 0 := by
        rintro rfl
        exact hbreak rfl
      rw [(body_unseen hrest).1, hbody, List.append_assoc]
      exact ⟨_, rfl, c, List.mem_append_left _ (List.mem_singleton_self c), hzero⟩
    · obtain ⟨w, hw, d, hd, hne⟩ := ih hrest
      obtain ⟨v, hv⟩ := body_step a c
      exact ⟨v ++ w, by rw [hw, hv, List.append_assoc], d, List.mem_append_right v hd, hne⟩

/-- NULs behind a body and their padding. -/
theorem pad4_nulls {l xs ys : List Byte} (hx : ∀ c ∈ xs, c = 0) (hy : ∀ c ∈ ys, c = 0) :
    pad4 (l ++ xs) = pad4 (l ++ ys) ↔
      (l.length + xs.length + 3) / 4 = (l.length + ys.length + 3) / 4 := by
  constructor
  · intro h
    have hlen := congrArg List.length h
    simp only [pad4_length, List.length_append] at hlen
    omega
  · intro h
    unfold pad4
    rw [List.eq_replicate_iff.mpr ⟨rfl, hx⟩, List.eq_replicate_iff.mpr ⟨rfl, hy⟩, List.append_assoc,
      List.append_assoc, List.replicate_append_replicate, List.replicate_append_replicate]
    simp only [List.length_append, List.length_replicate]
    congr 2
    omega

theorem ending_nulls (text : List Byte) : ∀ c ∈ ending text, c = 0 := by
  unfold ending
  split_ifs <;> simp

/-- The NULs behind a line that is not empty, with bytes behind it that are not seen: one for the
list, and one for the line unless it ends in a comment. -/
theorem tail_unseen {a b : List Byte} (h : Unseen (inComment a) b)
    (hne : clean (lastLine a) ≠ []) :
    ∃ t, body (a ++ b) ++ ending (a ++ b) = body a ++ t ∧ (∀ c ∈ t, c = 0) ∧
      t.length = if (∀ c ∈ b, isBreak c = false) ∧ 35 ∈ lastLine a ++ b then 1 else 2 := by
  obtain ⟨hbody, hline, hlast⟩ := body_unseen h
  rw [hbody, List.append_assoc]
  by_cases hcut : ∃ c ∈ b, isBreak c = true
  · have hend : ending (a ++ b) = [0] := if_pos (.inr (hline.mpr (.inr hcut)))
    have hnot : ¬ ∀ c ∈ b, isBreak c = false := by
      obtain ⟨c, hc, hbreak⟩ := hcut
      intro hall
      rw [hall c hc] at hbreak
      cases hbreak
    rw [if_pos ⟨hne, hcut⟩, hend, if_neg fun hand => hnot hand.1]
    exact ⟨[0, 0], rfl, by simp, rfl⟩
  · have hall : ∀ c ∈ b, isBreak c = false := fun c hc =>
      eq_false_of_ne_true fun hbreak => hcut ⟨c, hc, hbreak⟩
    have hopen : clean (lastLine (a ++ b)) ≠ [] := by
      rw [ne_eq, hline]
      exact not_or.mpr ⟨hne, hcut⟩
    rw [if_neg fun hand => hcut hand.2, List.nil_append]
    refine ⟨_, rfl, ending_nulls _, ?_⟩
    unfold ending
    rw [hlast hall]
    by_cases hskip : 35 ∈ lastLine a ++ b
    · rw [if_pos (.inl hskip), if_pos ⟨hall, hskip⟩]
      rfl
    · rw [hlast hall] at hopen
      rw [if_neg (not_or.mpr ⟨hskip, hopen⟩), if_neg fun hand => hskip hand.2]
      rfl

/-- What lies behind a text leaves what it condenses to exactly when nothing of it is seen, and
the NUL at the end of the last line is written with it as without it, or goes into the
padding. -/
theorem condenseText_append_iff (a b : List Byte) :
    condenseText (a ++ b) = condenseText a ↔
      Unseen (inComment a) b ∧
        (clean (lastLine a) = [] ∨
          (35 ∈ lastLine a ↔ (∀ c ∈ b, isBreak c = false) ∧ 35 ∈ lastLine a ++ b) ∨
          (body a).length % 4 ≠ 3) := by
  rw [condenseText_eq, condenseText_eq]
  by_cases h : Unseen (inComment a) b
  · rw [and_iff_right h]
    by_cases hempty : clean (lastLine a) = []
    · obtain ⟨hbody, hline, -⟩ := body_unseen h
      have hend : ∀ t, clean (lastLine t) = [] → ending t = [0] := fun t ht => if_pos (.inr ht)
      rw [hbody, if_neg fun hand => hand.1 hempty, List.append_nil, hend a hempty,
        hend (a ++ b) (hline.mpr (.inl hempty))]
      exact iff_of_true rfl (.inl hempty)
    · obtain ⟨t, ht, hnull, hlen⟩ := tail_unseen h hempty
      have hend : (ending a).length = if 35 ∈ lastLine a then 1 else 2 := by
        unfold ending
        by_cases hskip : 35 ∈ lastLine a
        · rw [if_pos (.inl hskip), if_pos hskip]
          rfl
        · rw [if_neg (not_or.mpr ⟨hskip, hempty⟩), if_neg hskip]
          rfl
      rw [ht, pad4_nulls hnull (ending_nulls a), hlen, hend]
      by_cases hskip : 35 ∈ lastLine a
      · by_cases hcomment : (∀ c ∈ b, isBreak c = false) ∧ 35 ∈ lastLine a ++ b
        · exact iff_of_true (by rw [if_pos hcomment, if_pos hskip])
            (.inr (.inl (iff_of_true hskip hcomment)))
        · have hdiffer : ¬ (35 ∈ lastLine a ↔ (∀ c ∈ b, isBreak c = false) ∧ 35 ∈ lastLine a ++ b) :=
            fun hsame => hcomment (hsame.mp hskip)
          rw [if_neg hcomment, if_pos hskip, or_iff_right hempty, or_iff_right hdiffer]
          omega
      · by_cases hcomment : (∀ c ∈ b, isBreak c = false) ∧ 35 ∈ lastLine a ++ b
        · have hdiffer : ¬ (35 ∈ lastLine a ↔ (∀ c ∈ b, isBreak c = false) ∧ 35 ∈ lastLine a ++ b) :=
            fun hsame => hskip (hsame.mpr hcomment)
          rw [if_pos hcomment, if_neg hskip, or_iff_right hempty, or_iff_right hdiffer]
          omega
        · exact iff_of_true (by rw [if_neg hcomment, if_neg hskip])
            (.inr (.inl (iff_of_false hskip hcomment)))
  · -- A byte that is seen is where the text alone has a NUL or an end.
    obtain ⟨w, hw, c, hc, hne⟩ := body_seen h
    refine iff_of_false (fun heq => hne ?_) (fun hand => h hand.1)
    rw [hw] at heq
    unfold pad4 at heq
    simp only [List.append_assoc] at heq
    have htail := List.append_cancel_left heq
    have hmem : c ∈ ending a ++ List.replicate ((4 - (body a ++ ending a).length % 4) % 4) 0 := by
      rw [← htail]
      exact List.mem_append_left _ hc
    rcases List.mem_append.mp hmem with hin | hin
    · exact ending_nulls a c hin
    · exact (List.mem_replicate.mp hin).2

/-- The condition on a file, over its bytes behind the first 2048. -/
theorem settings_cut_iff (text : List Byte) :
    condenseText (text.take Uploadsz) = condenseText text ↔
      let a := text.take Uploadsz
      let b := text.drop Uploadsz
      Unseen (inComment a) b ∧
        (clean (lastLine a) = [] ∨
          (35 ∈ lastLine a ↔ (∀ c ∈ b, isBreak c = false) ∧ 35 ∈ lastLine a ++ b) ∨
          (body a).length % 4 ≠ 3) := by
  have h := condenseText_append_iff (text.take Uploadsz) (text.drop Uploadsz)
  rw [List.take_append_drop] at h
  exact eq_comm.trans h

end rpi_wifi.ether4330.settings
