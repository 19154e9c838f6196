-- The law of the lines that set a key. The words of the line reach the parser of addresses,
-- the decoder of digits and the parser of numbers as they were written, and what these give
-- stands in the value of "wsec_key" where the chip looks for it.
import RpiWifi.HexBytes
import RpiWifi.EtherAddressLaws
import RpiWifi.CommandBufferLaws
import RpiWifi.KeyLine

namespace rpi_wifi.ether4330.keyline

open plibc plibc.address pieces cmdbuf

variable {a b c x y : Byte} {s : CString} {bytes : List Byte}

/-! ## The texts -/

/-- Two halves of a byte are joined or added. -/
theorem join_halves (hx : x.toNat < 16) (hy : y.toNat < 16) : x <<< 4 ||| y = 16 * x + y := by
  apply BitVec.eq_of_toNat_eq
  have h16 : (16 : Byte).toNat = 16 := rfl
  have hhigh : x.toNat <<< 4 % 2 ^ 8 = x.toNat <<< 4 := by
    rw [Nat.shiftLeft_eq]
    omega
  rw [BitVec.toNat_or, BitVec.toNat_shiftLeft, hhigh, ← Nat.shiftLeft_add_eq_or_of_lt hy,
    Nat.shiftLeft_eq, BitVec.toNat_add, BitVec.toNat_mul, h16]
  omega

theorem hexDigit_small (h : hexDigit c = some x) : x.toNat < 16 := by
  obtain ⟨-, hsmall, -⟩ := digit_of_hexDigit c (by simp [h])
  exact hsmall x h

/-- The digits of a text are packed into its bytes. -/
theorem hexText_packed (h : HexText s bytes) :
    AllHex s ∧ s.length = 2 * bytes.length ∧ packHex s = bytes := by
  induction h with
  | nil => exact ⟨fun c hc => by simp at hc, rfl, by simp [packHex]⟩
  | cons ha hb _ ih =>
    obtain ⟨hall, hlen, hpack⟩ := ih
    refine ⟨?_, ?_, ?_⟩
    · intro c hc
      simp only [List.mem_cons] at hc
      rcases hc with rfl | rfl | hc
      · simp [ha]
      · simp [hb]
      · exact hall c hc
    · simp only [List.length_cons, hlen]
      omega
    · simp only [packHex, nibble_some ha, nibble_some hb, hpack,
        join_halves (hexDigit_small ha) (hexDigit_small hb)]

/-! ## The words of a line -/

theorem hexDigit_noDelim : ∀ c : Byte, (hexDigit c).isSome = true → isDelim c = false := by
  decide +kernel

theorem digit_noDelim (h : hexDigit c = some x) : isDelim c = false :=
  hexDigit_noDelim c (by simp [h])

theorem allHex_noDelim (h : AllHex s) : ∀ c ∈ s, isDelim c = false :=
  fun c hc => hexDigit_noDelim c (h c hc)

/-- An address is one word. -/
theorem groups_noDelim {n : Nat} {addr : List Byte} (h : Groups n s addr) :
    (∀ c ∈ s, isDelim c = false) ∧ s ≠ [] := by
  induction h with
  | last ha hb =>
    refine ⟨?_, List.cons_ne_nil _ _⟩
    simp [digit_noDelim ha, digit_noDelim hb]
  | next ha hb _ ih =>
    refine ⟨?_, List.cons_ne_nil _ _⟩
    simp only [List.forall_mem_cons]
    exact ⟨digit_noDelim ha, digit_noDelim hb, ih.1⟩
  | colon ha hb _ ih =>
    refine ⟨?_, List.cons_ne_nil _ _⟩
    simp only [List.forall_mem_cons]
    exact ⟨digit_noDelim ha, digit_noDelim hb, rfl, ih.1⟩

theorem slotName_noDelim (slot : KeySlot) :
    (∀ c ∈ cstr (slotName slot), isDelim c = false) ∧ cstr (slotName slot) ≠ [] := by
  cases slot with
  | rxkey => decide
  | txkey => decide
  | group i => fin_cases i <;> decide

theorem method_noDelim (m : Method) : ∀ c ∈ cstr m.text, isDelim c = false := by
  cases m <;> decide

theorem keyWord_noDelim (l : KeyLine) : (∀ c ∈ l.keyWord, isDelim c = false) ∧ l.keyWord ≠ [] := by
  have hat : isDelim 64 = false := rfl
  constructor
  · intro c hc
    simp only [KeyLine.keyWord, List.mem_append, List.mem_cons] at hc
    rcases hc with hc | hc | rfl | hc
    · exact method_noDelim l.method c hc
    · exact allHex_noDelim (hexText_packed l.spells).1 c hc
    · exact hat
    · exact allHex_noDelim l.number.digits c hc
  · simp [KeyLine.keyWord]

/-- A line that fits has three words. -/
theorem parsecmd_line (l : KeyLine) (hfit : l.text.length ≤ 199) :
    parsecmd l.text = [cstr (slotName l.slot), l.addr, l.keyWord] := by
  have hblank : isDelim 32 = true := rfl
  obtain ⟨hname, hname'⟩ := slotName_noDelim l.slot
  obtain ⟨haddr, haddr'⟩ := groups_noDelim l.groups
  obtain ⟨hkey, hkey'⟩ := keyWord_noDelim l
  rw [parsecmd_words, List.take_of_length_le hfit]
  unfold KeyLine.text
  rw [runs_word hname hname' hblank, runs_word haddr haddr' hblank, runs_whole hkey hkey']
  rfl

theorem lookupcmd_slot (slot : KeySlot) (ws : List CString) :
    lookupcmd (cstr (slotName slot) :: ws) = some (.wpakey slot) := by
  change lookupcmd [cstr (slotName slot)] = some (.wpakey slot)
  cases slot with
  | rxkey => decide
  | txkey => decide
  | group i => fin_cases i <;> decide

theorem parseether_line (l : KeyLine) : plibc.parseether l.addr = some l.ea := by
  obtain ⟨ps, hps, hhex, hea⟩ := l.groups.pairs
  unfold plibc.parseether
  rw [readEther_pairs, hps, Option.bind_some,
    if_pos fun p hp => readsWhole_of_hex (hhex p hp), hea]

/-! ## The key -/

theorem method_named (m : Method) (s : CString) :
    strncasecmp (cstr m.text ++ s) (cstr "tkip:") 5 = 0 ∨
      strncasecmp (cstr m.text ++ s) (cstr "ccmp:") 5 = 0 := by
  cases m with
  | tkip =>
    left
    change strcasecmp (cstr "tkip:") (cstr "tkip:") = 0
    decide
  | ccmp =>
    right
    change strcasecmp (cstr "ccmp:") (cstr "ccmp:") = 0
    decide

theorem method_length (m : Method) : (cstr m.text).length = 5 := by cases m <;> rfl

/-- The word gives its key and its number, whatever key was there before. -/
theorem wpaparsekey_line (l : KeyLine) {key : WKey} (h : key.dat.length = WKeyLen) :
    wpaparsekey key l.keyWord =
      (⟨BitVec.ofNat 16 l.key.length, l.key ++ key.dat.drop l.key.length⟩, some l.iv) := by
  obtain ⟨hall, hlen, hpack⟩ := hexText_packed l.spells
  have hfits := l.fits
  have hnonempty := l.nonempty
  have hat : ∀ d ∈ (64 :: l.hexIv : CString).head?, isHex d = false := by
    intro d hd
    simp only [List.head?_cons, Option.mem_some_iff] at hd
    subst hd
    rfl
  have hprefix := hexPrefix_all hall (by omega : l.hexKey.length ≤ 2 * WKeyLen) hat
  have hiv : strtoull l.hexIv 16 = (l.iv, []) := by
    have hsmall := l.small
    have hvalue := l.number.value
    unfold strtoull
    rw [strtou_hex l.number.digits (by omega), hvalue]
  have hdrop : (cstr l.method.text ++ (l.hexKey ++ 64 :: l.hexIv)).drop 5 =
      l.hexKey ++ 64 :: l.hexIv := List.drop_left' (method_length l.method)
  have hread : parsehex key.dat WKeyLen (l.hexKey ++ 64 :: l.hexIv) =
      (l.key ++ key.dat.drop l.key.length, (l.key.length : Int)) := by
    have hhalf : l.hexKey.length / 2 = l.key.length := by omega
    have heven : ¬ l.hexKey.length % 2 = 1 := by omega
    rw [parsehex_eq _ h.ge, hprefix, hpack, if_neg heven, hhalf]
  have hrest : (l.hexKey ++ 64 :: l.hexIv).drop (2 * l.key.length) = 64 :: l.hexIv :=
    List.drop_left' hlen
  have hread' : ¬ ((l.key.length : Int) ≤ 0) := by omega
  have hended : ¬ ([] : CString).length = l.hexIv.length := by
    have hpos := List.length_pos_iff.mpr l.number.nonempty
    simp only [List.length_nil]
    omega
  unfold wpaparsekey KeyLine.keyWord
  rw [if_pos (method_named l.method _)]
  simp only [hdrop, hread, hread', ↓reduceIte, Int.toNat_natCast, hrest]
  change (if (strtoull l.hexIv 16).2.length = l.hexIv.length then _ else _) = _
  rw [hiv, if_neg hended, BitVec.ofInt_natCast]

/-! ## The value -/

/-- A byte of a number that has its sign. -/
theorem toNat_byte {w k : Nat} (v : BitVec w) (h : k + 8 ≤ w) :
    ((v.sshiftRight k).setWidth 8).toNat = v.toNat / 2 ^ k % 2 ^ 8 := by
  have hplain : (v.sshiftRight k).setWidth 8 = (v >>> k).setWidth 8 := by
    ext i hi
    have hlow : k + i < w := by omega
    simp [BitVec.getLsbD_sshiftRight, hlow]
    omega
  rw [hplain, BitVec.toNat_setWidth, BitVec.toNat_ushiftRight, Nat.shiftRight_eq_div_pow]

theorem littleEndian_put4 (v : BitVec 32) : littleEndian (put4 v) = v.toNat := by
  have hlt := v.isLt
  simp only [littleEndian, put4, List.foldr_cons, List.foldr_nil, BitVec.toNat_setWidth,
    toNat_byte v (show 8 + 8 ≤ 32 by decide), toNat_byte v (show 16 + 8 ≤ 32 by decide),
    toNat_byte v (show 24 + 8 ≤ 32 by decide)]
  omega

theorem littleEndian_put2 (v : BitVec 16) : littleEndian (put2 v) = v.toNat := by
  have hlt := v.isLt
  simp only [littleEndian, put2, List.foldr_cons, List.foldr_nil, BitVec.toNat_setWidth,
    toNat_byte v (show 8 + 8 ≤ 16 by decide)]
  omega

/-- A field between what stands in front of it and what stands behind it. -/
theorem field_eq {off len : Nat} {pre bytes post : List Byte} (hpre : pre.length = off)
    (hbytes : bytes.length = len) : field (pre ++ (bytes ++ post)) off len = bytes := by
  unfold field
  rw [List.drop_left' hpre, List.take_left' hbytes]

theorem padded_length {n : Nat} (h : bytes.length ≤ n) : (padded bytes n).length = n := by
  simp only [padded, List.length_append, List.length_replicate]
  omega

theorem padded_eq {m n : Nat} (h : n - bytes.length = m) :
    padded bytes n = bytes ++ List.replicate m 0 := by simp only [padded, h]

theorem padded_padded {m n : Nat} (hm : bytes.length ≤ m) (hn : m ≤ n) :
    padded bytes n = padded bytes m ++ List.replicate (n - m) 0 := by
  have hsplit : n - bytes.length = m - bytes.length + (n - m) := by omega
  simp only [padded, hsplit, List.replicate_add, List.append_assoc]

/-- What `wlwpakey` lays out: the key behind its index and its length, the number at 140 and
the address at 156. -/
theorem params_layout (ctl : Ctlr) (iv : Nat) (id flags : BitVec 32) (addr : List Byte)
    {key old : List Byte}
    (hkey : ctl.keys 0 = ⟨BitVec.ofNat 16 key.length, key ++ old⟩) (hfits : key.length ≤ WKeyLen) :
    ∃ mid : List Byte, mid.length = 100 ∧ wlwpakey.params ctl iv id flags addr =
      put4 id ++ (put4 (BitVec.ofNat 32 key.length) ++ (padded key 32 ++ (mid ++
        (put4 (BitVec.ofNat 32 (iv / 2 ^ 16)) ++ (put2 (BitVec.ofNat 16 iv) ++
          (List.replicate 10 0 ++ (addr ++ List.replicate (8 - addr.length) 0))))))) := by
  have h32 : WKeyLen = 32 := rfl
  set algo : BitVec 32 := if ctl.cryptotype = .Wpa then 2 else 4 with halgo
  have hcount : (BitVec.ofNat 16 key.length).toNat = key.length := by
    rw [BitVec.toNat_ofNat]
    omega
  have hlen : (BitVec.ofNat 16 key.length).setWidth 32 = BitVec.ofNat 32 key.length := by
    apply BitVec.eq_of_toNat_eq
    rw [BitVec.toNat_setWidth, hcount, BitVec.toNat_ofNat]
  have hput4 : ∀ v, (put4 v).length = 4 := fun _ => rfl
  have hput2 : ∀ v, (put2 v).length = 2 := fun _ => rfl
  have hkeylen := padded_length (show key.length ≤ 32 by omega)
  have hhead : keyParams id (ctl.keys 0) =
      put4 id ++ (put4 (BitVec.ofNat 32 key.length) ++ (padded key 32 ++ List.replicate 72 0)) := by
    have hpad := padded_padded (show key.length ≤ 32 by omega) (show 32 ≤ 32 + 18 * 4 by decide)
    simp only [keyParams, hkey, hcount, hlen, List.take_left' rfl, hpad, List.append_assoc]
  set head := keyParams id (ctl.keys 0)
  have hheadlen : head.length = 112 := by
    simp only [hhead, List.length_append, hput4, hkeylen, List.length_replicate]
  have h140 : padded (head ++ put4 algo ++ put4 flags) 140 =
      head ++ put4 algo ++ put4 flags ++ List.replicate 20 0 :=
    padded_eq (by simp only [List.length_append, hheadlen, hput4])
  have h156 : padded (head ++ put4 algo ++ put4 flags ++ List.replicate 20 0 ++
        (put4 (BitVec.ofNat 32 (iv / 2 ^ 16)) ++ put2 (BitVec.ofNat 16 iv))) 156 =
      head ++ put4 algo ++ put4 flags ++ List.replicate 20 0 ++
        (put4 (BitVec.ofNat 32 (iv / 2 ^ 16)) ++ put2 (BitVec.ofNat 16 iv)) ++
        List.replicate 10 0 :=
    padded_eq (by simp only [List.length_append, hheadlen, hput4, hput2, List.length_replicate])
  refine ⟨List.replicate 72 0 ++ (put4 algo ++ (put4 flags ++ List.replicate 20 0)), ?_, ?_⟩
  · simp only [List.length_append, hput4, List.length_replicate]
  · change padded (padded (padded (head ++ put4 algo ++ put4 flags) 140 ++
      (put4 (BitVec.ofNat 32 (iv / 2 ^ 16)) ++ put2 (BitVec.ofNat 16 iv))) 156 ++ addr) 164 = _
    have hend : 164 - (156 + addr.length) = 8 - addr.length := by omega
    rw [h140, h156, padded_eq (m := 8 - addr.length), hhead]
    · simp only [List.append_assoc]
    · rw [← hend]
      simp only [List.length_append, hheadlen, hput4, hput2, List.length_replicate]

theorem groups_length {n : Nat} {addr : List Byte} (h : Groups n s addr) : addr.length = n := by
  induction h with
  | last _ _ => rfl
  | next _ _ _ ih => simp [ih]
  | colon _ _ _ ih => simp [ih]

/-- The fields of the layout. -/
theorem params_carries (l : KeyLine) {ctl : Ctlr} {old : List Byte} (id flags : BitVec 32)
    {addr : List Byte} (hkey : ctl.keys 0 = ⟨BitVec.ofNat 16 l.key.length, l.key ++ old⟩)
    (haddr : addr.length ≤ 8) (htx : l.slot = .txkey → addr = l.ea) :
    Carries (wlwpakey.params ctl l.iv id flags addr) l := by
  obtain ⟨mid, hmid, hvalue⟩ := params_layout ctl l.iv id flags addr hkey l.fits
  have hfits : l.key.length ≤ 32 := l.fits
  have hsmall := l.small
  have hput4 : ∀ v, (put4 v).length = 4 := fun _ => rfl
  have hput2 : ∀ v, (put2 v).length = 2 := fun _ => rfl
  have hkeylen := padded_length hfits
  rw [hvalue]
  constructor
  · simp only [List.length_append, hput4, hput2, hkeylen, hmid, List.length_replicate]
    omega
  · rw [field_eq (hput4 id) (hput4 _), littleEndian_put4, BitVec.toNat_ofNat]
    omega
  · rw [← List.append_assoc, field_eq (by simp [hput4]) hkeylen]
    rfl
  · rw [← List.append_assoc, ← List.append_assoc, ← List.append_assoc,
      field_eq (by simp [hput4, hkeylen, hmid]) (hput4 _), littleEndian_put4, BitVec.toNat_ofNat]
    omega
  · rw [← List.append_assoc, ← List.append_assoc, ← List.append_assoc, ← List.append_assoc,
      field_eq (by simp [hput4, hkeylen, hmid]) (hput2 _), littleEndian_put2, BitVec.toNat_ofNat]
  · intro h
    have hsix : addr.length = 6 := by rw [htx h, groups_length l.groups]
    rw [← List.append_assoc, ← List.append_assoc, ← List.append_assoc, ← List.append_assoc,
      ← List.append_assoc, ← List.append_assoc,
      field_eq (by simp [hput4, hput2, hkeylen, hmid]) hsix, htx h]

/-- A line that fits installs its key, whatever the state was. -/
theorem line_installs (l : KeyLine) (hfit : l.text.length ≤ 199) {ctl : Ctlr}
    (hkeys : KeyArrays ctl) (stack : List Byte) (joinstatus : BitVec 32) :
    Installs ctl l stack joinstatus := by
  have hwords := parsecmd_line l hfit
  have hcm : lookupcmd (parsecmd l.text) = some (.wpakey l.slot) := by
    rw [hwords]
    exact lookupcmd_slot l.slot _
  have haddr : (parsecmd l.text)[1]? = some l.addr := by rw [hwords]; rfl
  have hword : (parsecmd l.text)[2]? = some l.keyWord := by rw [hwords]; rfl
  unfold Installs etherbcmctl
  simp only [hcm, haddr, hword, Option.elim_some, parseether_line, wpaparsekey_line l (hkeys 0)]
  set key : WKey :=
    ⟨BitVec.ofNat 16 l.key.length, l.key ++ (ctl.keys 0).dat.drop l.key.length⟩ with hk
  set ctl' : Ctlr := { ctl with keys := Function.update ctl.keys 0 key } with hctl
  have hkey : ctl'.keys 0 = key := Function.update_self 0 key ctl.keys
  refine ⟨ctl', ?_⟩
  cases hslot : l.slot with
  | rxkey => exact absurd hslot l.installs
  | group id =>
    exact ⟨_, rfl, params_carries l _ _ hkey (by simp) (by simp [hslot])⟩
  | txkey =>
    have hea : l.ea.take Eaddrlen = l.ea :=
      List.take_of_length_le (groups_length l.groups).le
    refine ⟨_, rfl, params_carries l _ _ hkey ?_ fun _ => hea⟩
    rw [hea, groups_length l.groups]
    decide

/-! ## WEP keys -/

/-- The loop ends at a character that is no digit. -/
theorem wepDigits_none {a : CString} (h : ¬ AllHex a) (i : Nat) (buf : List Byte) (k : Nat) :
    wepDigits a i buf k = none := by
  induction a generalizing i buf k with
  | nil => exact absurd (fun c hc => by simp at hc) h
  | cons c a ih =>
    unfold wepDigits
    rcases hc : hexDigit c with _ | n
    · rfl
    · have hrest : ¬ AllHex a := by
        intro hall
        apply h
        intro d hd
        rcases List.mem_cons.mp hd with rfl | hd
        · simp [hc]
        · exact hall d hd
      dsimp only
      split
      · exact ih hrest _ _ _
      · exact ih hrest _ _ _

/-- The loop over pairs of digits packs them as `parsehex` does. -/
theorem wepDigits_hex {a : CString} (h : AllHex a) (heven : a.length % 2 = 0) {i : Nat}
    (hi : i % 2 = 0) (pre : List Byte) {post : List Byte} (hroom : a.length ≤ 2 * post.length) :
    wepDigits a i (pre ++ post) pre.length =
      some (pre ++ packHex a ++ post.drop (a.length / 2), pre.length + a.length / 2) := by
  induction a using packHex.induct generalizing i pre post with
  | case1 => simp [wepDigits, packHex]
  | case2 a => simp at heven
  | case3 a b s ih =>
    obtain ⟨x, hx⟩ := Option.isSome_iff_exists.mp (h a (by simp))
    obtain ⟨y, hy⟩ := Option.isSome_iff_exists.mp (h b (by simp))
    have hrest : AllHex s := h.tail.tail
    simp only [List.length_cons] at heven hroom
    obtain ⟨w, post, rfl⟩ : ∃ w post', post = w :: post' := by
      cases post with
      | nil => simp at hroom
      | cons w post' => exact ⟨w, post', rfl⟩
    have hnot : ¬ i % 2 = 1 := by omega
    have hodd : (i + 1) % 2 = 1 := by omega
    have hhalf : (s.length + 1 + 1) / 2 = s.length / 2 + 1 := by omega
    have hget : (pre ++ x <<< 4 :: post).getD pre.length 0 = x <<< 4 := by simp
    have hlow : (pre ++ x <<< 4 :: post).set pre.length (x <<< 4 ||| y) =
        pre ++ [x <<< 4 ||| y] ++ post := by simp
    have hnext := @ih hrest (by omega) (i + 1 + 1) (by omega) (pre ++ [x <<< 4 ||| y]) post (by
      simp only [List.length_cons] at hroom
      omega)
    rw [List.length_append, List.length_singleton] at hnext
    simp only [wepDigits, hx, hy, hnot, hodd, ↓reduceIte, set_behind pre _ (List.cons_ne_nil w post),
      List.drop_one, List.tail_cons, hget, hlow, hnext, packHex, nibble_some hx, nibble_some hy,
      List.length_cons, hhalf]
    simp
    omega

/-- The decoder of the commands is the loop. -/
theorem hexBytes_packed {a : CString} (h : AllHex a) (heven : a.length % 2 = 0) :
    hexBytes a = some (packHex a) := by
  induction a using packHex.induct with
  | case1 => simp [hexBytes, packHex]
  | case2 a => simp at heven
  | case3 a b s ih =>
    obtain ⟨x, hx⟩ := Option.isSome_iff_exists.mp (h a (by simp))
    obtain ⟨y, hy⟩ := Option.isSome_iff_exists.mp (h b (by simp))
    simp only [List.length_cons] at heven
    simp [hexBytes, hx, hy, ih h.tail.tail (by omega), packHex, nibble_some hx, nibble_some hy]

section

variable (key : WKey) (buf : WepBuf) {a : CString}

theorem wepparsekey_raw (h : Raw a) :
    wepparsekey key buf a = (⟨BitVec.ofNat 16 a.length, padded a WKeyLen⟩, 0) := if_pos h

theorem wepparsekey_digits (h : Digits a) :
    wepparsekey key buf a = (⟨BitVec.ofNat 16 (a.length / 2), padded (packHex a) WKeyLen⟩, 0) := by
  obtain ⟨hlen, hall⟩ := h
  have hraw : ¬ (a.length = WMinKeyLen ∨ a.length = WMaxKeyLen) := by
    simp only [WMinKeyLen, WMaxKeyLen]
    omega
  have hsize : buf.bytes.length = 13 := buf.size
  have hloop := @wepDigits_hex a hall (by omega) 0 rfl [] buf.bytes (by omega)
  have hpack : (packHex a).length = a.length / 2 := by
    rw [packHex_length]
    omega
  simp only [List.nil_append, List.length_nil, Nat.zero_add] at hloop
  have hhex : a.length = WMinKeyLen * 2 ∨ a.length = WMaxKeyLen * 2 := hlen
  unfold wepparsekey
  simp only [hraw, hhex, ↓reduceIte, hloop, List.take_left' hpack]

theorem wepparsekey_other (hraw : ¬ Raw a) (hdigits : ¬ Digits a) :
    wepparsekey key buf a = (key, -1) := by
  have hplain : ¬ (a.length = WMinKeyLen ∨ a.length = WMaxKeyLen) := hraw
  unfold wepparsekey
  simp only [hplain, ↓reduceIte]
  split
  · rename_i hlen
    rw [wepDigits_none (fun hall => hdigits ⟨hlen, hall⟩)]
  · rfl

/-- The commands read a WEP key as the loop does. -/
theorem wepparsekey_eq (a : CString) :
    ether4330.wepparsekey a =
      if (wepparsekey key buf a).2 = 0 then some (wepparsekey key buf a).1 else none := by
  by_cases hraw : Raw a
  · rw [wepparsekey_raw key buf hraw]
    exact if_pos hraw
  · have hplain : ¬ (a.length = WMinKeyLen ∨ a.length = WMaxKeyLen) := hraw
    by_cases hdigits : Digits a
    · obtain ⟨hlen, hall⟩ := hdigits
      have hhex : a.length = WMinKeyLen * 2 ∨ a.length = WMaxKeyLen * 2 := hlen
      have hpack : (packHex a).length = a.length / 2 := by
        rw [packHex_length]
        omega
      rw [wepparsekey_digits key buf ⟨hlen, hall⟩]
      unfold ether4330.wepparsekey
      simp only [hplain, hhex, ↓reduceIte, hexBytes_packed hall (by omega), Option.map_some, hpack]
    · rw [wepparsekey_other key buf hraw hdigits]
      have hno : ¬ WepKeyOk a := by
        rintro (h | h | h)
        · exact hraw (.inl h)
        · exact hraw (.inr h)
        · exact hdigits h
      rw [← wepparsekey_ok, Option.not_isSome_iff_eq_none] at hno
      simp [hno]

/-- What is taken for a WEP key. -/
theorem takes_wep_keys (a : CString) : TakesWepKeys key buf a := by
  constructor
  · constructor
    · intro haccept
      by_contra hnone
      rw [not_or] at hnone
      rw [wepparsekey_other key buf hnone.1 hnone.2] at haccept
      simp at haccept
    · rintro (h | h)
      · rw [wepparsekey_raw key buf h]
      · rw [wepparsekey_digits key buf h]
  · intro h
    have hlen : a.length = 5 ∨ a.length = 13 := h
    rw [wepparsekey_raw key buf h]
    refine ⟨?_, rfl⟩
    rw [BitVec.toNat_ofNat]
    omega
  · intro h dat hdat
    obtain ⟨hlen, hall⟩ := h
    have hpack : (packHex a).length = a.length / 2 := by
      rw [packHex_length]
      omega
    have hcount : (BitVec.ofNat 16 (a.length / 2)).toNat = a.length / 2 := by
      rw [BitVec.toNat_ofNat]
      omega
    have hfit : a.length ≤ 2 * WKeyLen := by
      simp only [WKeyLen]
      omega
    have hprefix : hexPrefix WKeyLen a = a := by
      have hall' := hexPrefix_all hall hfit (show ∀ d ∈ ([] : CString).head?, isHex d = false by simp)
      rwa [List.append_nil] at hall'
    have heven : ¬ a.length % 2 = 1 := by omega
    rw [wepparsekey_digits key buf ⟨hlen, hall⟩, parsehex_eq a hdat.ge, hprefix, if_neg heven]
    refine ⟨by rw [hcount], hcount, ?_⟩
    rw [List.take_left' hpack]
  · intro h
    by_cases hraw : Raw a
    · rw [wepparsekey_raw key buf hraw] at h
      simp at h
    · by_cases hdigits : Digits a
      · rw [wepparsekey_digits key buf hdigits] at h
        simp at h
      · rw [wepparsekey_other key buf hraw hdigits]

end

/-! ## The arrays of the keys -/

/-- What a call returns has whole arrays. -/
def KeepsArrays (o : Outcome) : Prop :=
  ∀ value ctl' sent released, o = .returned value ctl' sent released → KeyArrays ctl'

section

variable {n : Nat} {ctl : Ctlr} {sent : List Request}

theorem keeps_fault (why : Fault) : KeepsArrays (.fault why) := by
  intro _ _ _ _ h
  cases h

theorem keeps_returned (h : KeyArrays ctl) (value : Int) (released : Bool) :
    KeepsArrays (.returned value ctl sent released) := by
  intro _ _ _ _ ho
  cases ho
  exact h

theorem keyArrays_of_keys {ctl' : Ctlr} (h : KeyArrays ctl) (hkeys : ctl'.keys = ctl.keys) :
    KeyArrays ctl' := by
  intro i
  rw [hkeys]
  exact h i

theorem keeps_join (h : KeyArrays ctl) (joinstatus : BitVec 32) (bssid : Option (List Byte)) :
    KeepsArrays (joinAndReturn n ctl sent joinstatus bssid) := by
  unfold joinAndReturn wljoin
  by_cases hwait : joinstatus = 0
  · simp only [hwait, ↓reduceIte]
    intro _ _ _ _ ho
    cases ho
  · simp only [hwait, ↓reduceIte]
    exact keeps_returned (keyArrays_of_keys h (by rfl)) _ _

theorem keeps_joinIfEssid (h : KeyArrays ctl) (joinstatus : BitVec 32)
    (bssid : Option (List Byte)) : KeepsArrays (joinIfEssid n ctl sent joinstatus bssid) := by
  unfold joinIfEssid
  split
  · exact keeps_join h joinstatus bssid
  · exact keeps_returned h _ _

theorem keeps_withArg (arg : Option CString) (why : Fault) {k : CString → Outcome}
    (h : ∀ a, KeepsArrays (k a)) : KeepsArrays (arg.elim (.fault why) k) := by
  cases arg with
  | none => exact keeps_fault why
  | some a => exact h a

theorem keyArrays_update (h : KeyArrays ctl) (i : Fin 4) {key : WKey}
    (hkey : key.dat.length = WKeyLen) :
    KeyArrays { ctl with keys := Function.update ctl.keys i key } := by
  intro j
  by_cases hij : j = i
  · subst hij
    simp [hkey]
  · simp only [Function.update_of_ne hij]
    exact h j

theorem setEssid_keys (ctl : Ctlr) (a : CString) : (setEssid ctl a).keys = ctl.keys :=
  (setEssid_keeps ctl a).2.2.2.2

theorem setcrypt_keys {a : CString} {r : Ctlr × List Request} (h : setcrypt ctl a = some r) :
    r.1.keys = ctl.keys := by
  unfold setcrypt at h
  obtain ⟨c, -, rfl⟩ := Option.map_eq_some_iff.mp h
  rfl

theorem setauth_keys {stack : List Byte} {a : CString} {r : Ctlr × List Request}
    (h : setauth ctl stack a = some r) : r.1.keys = ctl.keys := by
  unfold setauth at h
  dsimp only at h
  split at h
  · cases h
  · cases h
    split
    · rfl
    · split <;> rfl

end

theorem readHex_length (n : Nat) (s : CString) (buf : List Byte) (i : Nat) :
    (readHex n s buf i).1.length = buf.length := by
  induction s generalizing buf i with
  | nil => rfl
  | cons c s ih =>
    unfold readHex
    split
    · cases hexDigit c with
      | none => rfl
      | some d =>
        dsimp only
        rw [ih]
        split <;> simp
    · rfl

theorem wpaparsekey_length (key : WKey) (a : CString) :
    (wpaparsekey key a).1.dat.length = key.dat.length := by
  have hread : (parsehex key.dat WKeyLen (a.drop 5)).1.length = key.dat.length :=
    readHex_length WKeyLen (a.drop 5) key.dat 0
  unfold wpaparsekey
  split
  · dsimp only
    split
    · exact hread
    · split
      · split <;> exact hread
      · exact hread
  · rfl

theorem wepparsekey_length {a : CString} {key : WKey} (h : ether4330.wepparsekey a = some key) :
    key.dat.length = WKeyLen := by
  have hpadded : ∀ bytes : List Byte, bytes.length ≤ 13 → (padded bytes WKeyLen).length = WKeyLen :=
    fun bytes hlen => padded_length (by simp only [WKeyLen]; omega)
  set buf : WepBuf := ⟨List.replicate 13 0, rfl⟩
  rw [wepparsekey_eq key buf] at h
  by_cases hraw : Raw a
  · have hlen : a.length = 5 ∨ a.length = 13 := hraw
    rw [wepparsekey_raw key buf hraw] at h
    cases h
    exact hpadded a (by omega)
  · by_cases hdigits : Digits a
    · have hlen := hdigits.1
      rw [wepparsekey_digits key buf hdigits] at h
      cases h
      exact hpadded _ (by rw [packHex_length]; omega)
    · rw [wepparsekey_other key buf hraw hdigits] at h
      cases h

theorem keeps_cmJoin {ctl : Ctlr} (h : KeyArrays ctl) (n : Nat) (f : List CString)
    (stack : List Byte) (joinstatus : BitVec 32) :
    KeepsArrays (cmJoin n ctl f stack joinstatus) := by
  unfold cmJoin
  split
  · exact keeps_fault _
  · rename_i name _
    split
    · exact keeps_returned h _ _
    · have hname : KeyArrays (if name = [] then ctl else setEssid ctl name) := by
        split
        · exact h
        · exact keyArrays_of_keys h (setEssid_keys ctl name)
      generalize (if name = [] then ctl else setEssid ctl name) = c at hname
      dsimp only
      split
      · exact keeps_fault _
      · split
        · exact keeps_returned hname _ _
        · split
          · exact keeps_fault _
          · split
            · split
              · exact keeps_fault _
              · rename_i chan _ _ _ a _
                rcases hcrypt : setcrypt { c with chanid := atoi chan } a with _ | r
                · dsimp only
                  rcases hauth : setauth { c with chanid := atoi chan } stack a with _ | r
                  · exact keeps_fault _
                  · exact keeps_joinIfEssid (keyArrays_of_keys hname (by rw [setauth_keys hauth])) _ _
                · exact keeps_joinIfEssid (keyArrays_of_keys hname (by rw [setcrypt_keys hcrypt])) _ _
            · exact keeps_returned hname _ _

/-- No command changes the length of an array. -/
theorem etherbcmctl_keeps {ctl : Ctlr} (h : KeyArrays ctl) (str : CString) (stack : List Byte)
    (joinstatus : BitVec 32) : KeepsArrays (etherbcmctl ctl str stack joinstatus) := by
  unfold etherbcmctl
  dsimp only
  cases lookupcmd (parsecmd str) with
  | none => exact keeps_fault _
  | some cm =>
    cases cm with
    | auth =>
      refine keeps_withArg _ _ fun a => ?_
      rcases hauth : setauth ctl stack a with _ | r
      · exact keeps_fault _
      · exact keeps_joinIfEssid (keyArrays_of_keys h (setauth_keys hauth)) _ _
    | channel =>
      refine keeps_withArg _ _ fun a => ?_
      split
      · exact keeps_returned h _ _
      · exact keeps_returned (keyArrays_of_keys h (by rfl)) _ _
    | crypt =>
      refine keeps_withArg _ _ fun a => ?_
      rcases hcrypt : setcrypt ctl a with _ | r
      · exact keeps_returned h _ _
      · exact keeps_joinIfEssid (keyArrays_of_keys h (setcrypt_keys hcrypt)) _ _
    | essid =>
      exact keeps_withArg _ _ fun a => keeps_join (keyArrays_of_keys h (setEssid_keys ctl a)) _ _
    | key i =>
      refine keeps_withArg _ _ fun a => ?_
      rcases hwep : ether4330.wepparsekey a with _ | key
      · exact keeps_returned h _ _
      · exact keeps_returned (keyArrays_update h i (wepparsekey_length hwep)) _ _
    | wpakey slot =>
      refine keeps_withArg _ _ fun a => ?_
      cases plibc.parseether a with
      | none => exact keeps_returned h _ _
      | some ea =>
        cases (parsecmd str)[2]? with
        | none => exact keeps_fault _
        | some b =>
          have hkey : KeyArrays { ctl with
              keys := Function.update ctl.keys 0 (wpaparsekey (ctl.keys 0) b).1 } :=
            keyArrays_update h 0 ((wpaparsekey_length _ b).trans (h 0))
          dsimp only
          split
          · exact keeps_returned hkey _ _
          · exact keeps_returned hkey _ _
    | debug => exact keeps_returned h _ _
    | join => exact keeps_cmJoin h _ _ stack joinstatus
    | disassoc => exact keeps_returned h _ _
    | escan => exact keeps_withArg _ _ fun a => keeps_returned (keyArrays_of_keys h (by rfl)) _ _
    | country => exact keeps_withArg _ _ fun a => keeps_returned h _ _
    | create => exact keeps_returned h _ _

/-- The states that commands reach from the one that `etherbcmpnp` makes. -/
inductive Commanded : Ctlr → Prop where
  | boot : Commanded bootCtlr
  | call {ctl ctl' : Ctlr} {str : CString} {stack : List Byte} {joinstatus : BitVec 32}
      {value : Int} {sent : List Request} {released : Bool} (h : Commanded ctl)
      (hcall : etherbcmctl ctl str stack joinstatus = .returned value ctl' sent released) :
      Commanded ctl'

theorem boot_keyArrays : KeyArrays bootCtlr := fun _ => List.length_replicate

/-- The keys are whole arrays after any commands. -/
theorem commanded_keyArrays {ctl : Ctlr} (h : Commanded ctl) : KeyArrays ctl := by
  induction h with
  | boot => exact boot_keyArrays
  | call _ hcall ih => exact etherbcmctl_keeps ih _ _ _ _ _ _ _ hcall

/-! ## The law -/

/-- A line that fits in the buffer of a command installs its key and its number, whatever
the state and the spelling, and a WEP key is taken exactly when it is one. -/
theorem keys_are_installed_as_written (ctl : Ctlr) (hkeys : KeyArrays ctl) (l : KeyLine)
    (hfit : l.text.length ≤ 199) (stack : List Byte) (joinstatus : BitVec 32) (key : WKey)
    (buf : WepBuf) (a : CString) :
    Installs ctl l stack joinstatus ∧ TakesWepKeys key buf a :=
  ⟨line_installs l hfit hkeys stack joinstatus, takes_wep_keys key buf a⟩

/-- A key of two bytes, in a line with digits of both cases. -/
theorem a_short_key_is_installed :
    KeyArrays bootCtlr ∧ ∃ l : KeyLine, l.text = cstr "txkey b827EB000001 tkip:00Ff@1aB" ∧
      l.text.length ≤ 199 ∧ Installs bootCtlr l [] 0 ∧
        TakesWepKeys ⟨0, []⟩ ⟨List.replicate 13 0, List.length_replicate⟩ (cstr "0123456789") := by
  have hgroups : Groups 6 (cstr "b827EB000001")
      [16 * 11 + 8, 16 * 2 + 7, 16 * 14 + 11, 16 * 0 + 0, 16 * 0 + 0, 16 * 0 + 1] :=
    .next rfl rfl (.next rfl rfl (.next rfl rfl (.next rfl rfl (.next rfl rfl (.last rfl rfl)))))
  have hkey : HexText (cstr "00Ff") [16 * 0 + 0, 16 * 15 + 15] := .cons rfl rfl (.cons rfl rfl .nil)
  have hiv : HexNumber (cstr "1aB") 0x1ab := ⟨by decide, by unfold AllHex; decide, by decide⟩
  have hfit : (cstr "txkey b827EB000001 tkip:00Ff@1aB").length ≤ 199 := by decide
  let l : KeyLine := ⟨.txkey, by decide, _, _, hgroups, .tkip, _, _, hkey, by decide, by decide,
    _, _, hiv, by decide⟩
  have htext : l.text = cstr "txkey b827EB000001 tkip:00Ff@1aB" := by
    change cstr "txkey" ++ 32 :: (cstr "b827EB000001" ++ 32 ::
      (cstr "tkip:" ++ (cstr "00Ff" ++ 64 :: cstr "1aB"))) = _
    decide
  have hfit' : l.text.length ≤ 199 := htext ▸ hfit
  exact ⟨boot_keyArrays, l, htext, hfit',
    keys_are_installed_as_written bootCtlr boot_keyArrays l hfit' [] 0 ⟨0, []⟩ _ _⟩

end rpi_wifi.ether4330.keyline
