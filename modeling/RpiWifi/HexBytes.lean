-- Bytes in hexadecimal digits. `parsehex` takes the digits at the front of a string, as
-- many as its buffer has room for, and packs each two of them into a byte.
import RpiWifi.HexNumbers

namespace rpi_wifi.plibc

open ether4330

variable {a b c x y : Byte} {s : CString} {n : Nat}

/-! ## Digits in pairs -/

def isHex (c : Byte) : Bool := (hexDigit c).isSome

/-- The value of a digit, and 0 for any other character. -/
def nibble (c : Byte) : Byte := (hexDigit c).getD 0

/-- The bytes of a string of digits. An odd digit at the end is a high half. -/
def packHex : CString → List Byte
  | [] => []
  | [a] => [nibble a <<< 4]
  | a :: b :: s => (nibble a <<< 4 ||| nibble b) :: packHex s

/-- The digits that `parsehex` reads into a buffer of `n` bytes. -/
def hexPrefix (n : Nat) (s : CString) : CString := (s.take (2 * n)).takeWhile isHex

theorem isHex_some (h : hexDigit c = some x) : isHex c = true := by simp [isHex, h]

theorem isHex_none (h : hexDigit c = none) : isHex c = false := by simp [isHex, h]

theorem nibble_some (h : hexDigit c = some x) : nibble c = x := by simp [nibble, h]

@[simp] theorem hexPrefix_zero (s : CString) : hexPrefix 0 s = [] := by simp [hexPrefix]

@[simp] theorem hexPrefix_nil (n : Nat) : hexPrefix n [] = [] := by simp [hexPrefix]

theorem hexPrefix_stop (n : Nat) (s : CString) (h : isHex a = false) :
    hexPrefix n (a :: s) = [] := by
  cases n with
  | zero => simp
  | succ n => simp [hexPrefix, Nat.mul_succ, h]

theorem hexPrefix_last (n : Nat) (h : isHex a = true) : hexPrefix (n + 1) [a] = [a] := by
  simp [hexPrefix, Nat.mul_succ, h]

theorem hexPrefix_odd (n : Nat) (s : CString) (ha : isHex a = true) (hb : isHex b = false) :
    hexPrefix (n + 1) (a :: b :: s) = [a] := by
  simp [hexPrefix, Nat.mul_succ, ha, hb]

theorem hexPrefix_pair (n : Nat) (s : CString) (ha : isHex a = true) (hb : isHex b = true) :
    hexPrefix (n + 1) (a :: b :: s) = a :: b :: hexPrefix n s := by
  simp [hexPrefix, Nat.mul_succ, ha, hb]

/-- Digits that fit are read up to the first character that is none. -/
theorem hexPrefix_all (hs : AllHex s) (hfit : s.length ≤ 2 * n) {rest : CString}
    (hrest : ∀ d ∈ rest.head?, isHex d = false) : hexPrefix n (s ++ rest) = s := by
  have hall : ∀ d ∈ s, isHex d = true := hs
  unfold hexPrefix
  rw [List.take_append, List.take_of_length_le hfit, List.takeWhile_append_of_pos hall]
  cases rest with
  | nil => simp
  | cons d rest =>
    have hd : isHex d = false := hrest d rfl
    cases h : 2 * n - s.length with
    | zero => simp
    | succ m => simp [hd]

theorem packHex_length (s : CString) : (packHex s).length = (s.length + 1) / 2 := by
  induction s using packHex.induct with
  | case1 => simp [packHex]
  | case2 a => simp [packHex]
  | case3 a b s ih =>
    simp only [packHex, List.length_cons, ih]
    omega

/-! ## `parsehex` -/

/-- A byte is stored behind the bytes that are there. -/
theorem set_behind (pre : List Byte) {post : List Byte} (v : Byte) (h : post ≠ []) :
    (pre ++ post).set pre.length v = pre ++ v :: post.drop 1 := by
  cases post with
  | nil => exact absurd rfl h
  | cons w post => simp

/-- The first digit of a pair goes into the high half of a byte. -/
theorem readHex_high {pre post : List Byte} (s : CString) (hroom : pre.length < n)
    (hpost : post ≠ []) (ha : hexDigit a = some x) :
    readHex n (a :: s) (pre ++ post) (2 * pre.length) =
      readHex n s (pre ++ x <<< 4 :: post.drop 1) (2 * pre.length + 1) := by
  have hplace : 2 * pre.length / 2 = pre.length := by omega
  have heven : ¬ 2 * pre.length % 2 = 1 := by omega
  simp only [readHex, hplace, hroom, ↓reduceIte, ha, heven, set_behind pre _ hpost]

/-- The second digit of a pair goes into the low half. -/
theorem readHex_low {pre post : List Byte} (s : CString) (hroom : pre.length < n) (v : Byte)
    (hb : hexDigit b = some y) :
    readHex n (b :: s) (pre ++ v :: post) (2 * pre.length + 1) =
      readHex n s (pre ++ [v ||| y] ++ post) (2 * (pre ++ [v ||| y]).length) := by
  have hplace : (2 * pre.length + 1) / 2 = pre.length := by omega
  have hodd : (2 * pre.length + 1) % 2 = 1 := by omega
  have hnext : 2 * pre.length + 1 + 1 = 2 * (pre ++ [v ||| y]).length := by
    simp
    omega
  simp only [readHex, hplace, hroom, ↓reduceIte, hb, hodd]
  rw [hnext]
  simp

/-- The loop from a pair of digits on, with the bytes of the pairs before in `pre`. -/
theorem readHex_eq (s : CString) (pre post : List Byte) (h : n ≤ (pre ++ post).length) :
    readHex n s (pre ++ post) (2 * pre.length) =
      (pre ++ packHex (hexPrefix (n - pre.length) s) ++
          post.drop (packHex (hexPrefix (n - pre.length) s)).length,
        2 * pre.length + (hexPrefix (n - pre.length) s).length) := by
  have hplace : 2 * pre.length / 2 = pre.length := by omega
  have hplace' : (2 * pre.length + 1) / 2 = pre.length := by omega
  rcases Nat.lt_or_ge pre.length n with hroom | hfull
  · have hpost : post ≠ [] := by
      rintro rfl
      simp only [List.append_nil] at h
      omega
    obtain ⟨m, hm⟩ : ∃ m, n - pre.length = m + 1 := ⟨n - pre.length - 1, by omega⟩
    rw [hm]
    cases s with
    | nil => simp [readHex, packHex]
    | cons a s =>
      rcases ha : hexDigit a with _ | x
      · simp [readHex, ha, hplace, hroom, hexPrefix_stop _ _ (isHex_none ha), packHex]
      · rw [readHex_high s hroom hpost ha]
        cases s with
        | nil => simp [readHex, hexPrefix_last m (isHex_some ha), packHex, nibble_some ha]
        | cons b s =>
          rcases hb : hexDigit b with _ | y
          · simp [readHex, hb, hplace', hroom, packHex, nibble_some ha,
              hexPrefix_odd m s (isHex_some ha) (isHex_none hb)]
          · have hlen : n ≤ (pre ++ [x <<< 4 ||| y] ++ post.drop 1).length := by
              have hpos := List.length_pos_iff.mpr hpost
              simp only [List.length_append, List.length_singleton, List.length_drop] at h ⊢
              omega
            have hleft : n - (pre ++ [x <<< 4 ||| y]).length = m := by
              simp only [List.length_append, List.length_singleton]
              omega
            rw [readHex_low s hroom (x <<< 4) hb, readHex_eq s _ _ hlen, hleft,
              hexPrefix_pair m s (isHex_some ha) (isHex_some hb)]
            simp [packHex, nibble_some ha, nibble_some hb]
            omega
  · have hzero : n - pre.length = 0 := by omega
    rw [hzero]
    cases s with
    | nil => simp [readHex, packHex]
    | cons c s => simp [readHex, packHex, hplace, hfull]

/-- `parsehex` into a buffer that it may fill. -/
theorem parsehex_eq (s : CString) {buf : List Byte} (h : n ≤ buf.length) :
    parsehex buf n s =
      (packHex (hexPrefix n s) ++ buf.drop (packHex (hexPrefix n s)).length,
        if (hexPrefix n s).length % 2 = 1 then (-1 : Int)
        else ((hexPrefix n s).length / 2 : Nat)) := by
  have hread := readHex_eq s [] buf h
  simp only [List.nil_append, List.length_nil, Nat.mul_zero, Nat.sub_zero, Nat.zero_add] at hread
  simp only [parsehex, hread]

end rpi_wifi.plibc
