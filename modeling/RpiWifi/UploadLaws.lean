-- The laws of the upload: one to a chip with a working memory succeeds. The pieces of
-- both loops line up for every length of the file.
import RpiWifi.FirmwareLaws

namespace rpi_wifi.ether4330

open plibc transfers

variable {answer : Answer}

/-! ## Buffers -/

theorem first_length (b : Buf) (n : Nat) : (b.first n).length = n := by
  simp [Buf.first]

theorem first_succ (b : Buf) (n : Nat) (v : Byte) :
    Buf.first (Function.update b n v) (n + 1) = b.first n ++ [v] := by
  unfold Buf.first
  rw [List.range_succ, List.map_append, List.map_singleton, Function.update_self]
  congr 1
  apply List.map_congr_left
  intro i hi
  exact Function.update_of_ne (Nat.ne_of_lt (List.mem_range.mp hi)) _ _

/-- Zeros up to the next multiple of four. -/
def pad4 (l : List Byte) : List Byte := l ++ List.replicate ((4 - l.length % 4) % 4) 0

theorem pad4_length (l : List Byte) : (pad4 l).length = (l.length + 3) / 4 * 4 := by
  simp only [pad4, List.length_append, List.length_replicate]
  omega

theorem zeroPad_first (buf : Buf) (n : Nat) :
    (zeroPad buf n).1.first (zeroPad buf n).2 = pad4 (buf.first n) := by
  unfold pad4
  rw [first_length]
  induction buf, n using zeroPad.induct with
  | case1 buf n h =>
    unfold zeroPad
    rw [if_pos h]
    have h0 : (4 - n % 4) % 4 = 0 := by omega
    simp [h0]
  | case2 buf n h ih =>
    unfold zeroPad
    rw [if_neg h, ih, first_succ]
    have hrest : (4 - n % 4) % 4 = (4 - (n + 1) % 4) % 4 + 1 := by omega
    rw [hrest, List.replicate_succ, List.append_assoc]
    rfl

/-! ## Pieces of a file -/

theorem readLoop_spec (buffer : Buf) {n k : Nat} {src : List Byte} (h : k < n) (hsrc : src ≠ []) :
    (readLoop buffer n k src).1 = min n (k + src.length) ∧
      (readLoop buffer n k src).2.first (readLoop buffer n k src).1 =
        buffer.first k ++ src.take (n - k) := by
  induction src generalizing buffer k with
  | nil => exact absurd rfl hsrc
  | cons b rest ih =>
    simp only [readLoop]
    split
    · rename_i hstop
      dsimp only
      rw [first_succ]
      rcases hstop with rfl | rfl
      · have h1 : k + 1 - k = 0 + 1 := by omega
        rw [h1, List.take_succ_cons, List.take_zero, List.length_cons]
        exact ⟨by omega, rfl⟩
      · obtain ⟨j, hj⟩ : ∃ j, n - k = j + 1 := ⟨n - k - 1, by omega⟩
        rw [hj, List.take_succ_cons, List.take_nil]
        refine ⟨?_, rfl⟩
        simp only [List.length_cons, List.length_nil]
        omega
    · rename_i hgo
      obtain ⟨hne, hrest⟩ := not_or.mp hgo
      obtain ⟨hcount, hfirst⟩ := ih (Function.update buffer k b) (k := k + 1) (by omega) hrest
      have hj : n - k = n - (k + 1) + 1 := by omega
      rw [hfirst, first_succ, hj, List.take_succ_cons, List.append_assoc]
      refine ⟨?_, rfl⟩
      rw [hcount, List.length_cons]
      omega

/-- The piece of the file at the offset. -/
def FileInfo.piece (f : FileInfo) (off : Nat) : List Byte := (f.data.drop off).take Uploadsz

theorem read_spec (f : FileInfo) (buffer : Buf) (off : BitVec 32) (h : off.toNat < f.size) :
    (read_file_in_buffer f buffer Uploadsz off).2.first
        (read_file_in_buffer f buffer Uploadsz off).1 = f.piece off.toNat ∧
      (read_file_in_buffer f buffer Uploadsz off).1 = (f.piece off.toNat).length := by
  have hne : f.data.drop off.toNat ≠ [] := by
    unfold FileInfo.size at h
    intro h0
    have := congrArg List.length h0
    rw [List.length_drop, List.length_nil] at this
    omega
  unfold read_file_in_buffer
  rw [if_neg (by omega)]
  obtain ⟨hcount, hfirst⟩ := readLoop_spec buffer (n := Uploadsz) (k := 0) (by decide) hne
  refine ⟨hfirst, ?_⟩
  rw [hcount]
  unfold FileInfo.piece
  rw [List.length_take]
  omega

/-- The offset behind the piece, padded. -/
def FileInfo.after (f : FileInfo) (off : BitVec 32) : BitVec 32 :=
  off + BitVec.ofNat 32 (pad4 (f.piece off.toNat)).length

theorem after_toNat {f : FileInfo} {off : BitVec 32} (h : off.toNat < f.size) :
    (f.after off).toNat = off.toNat + (pad4 (f.piece off.toNat)).length ∧
      off.toNat < (f.after off).toNat := by
  have hfits := f.fits
  have hlen : (f.piece off.toNat).length = min Uploadsz (f.size - off.toNat) := by
    rw [FileInfo.piece, List.length_take, List.length_drop, FileInfo.size]
  unfold FileInfo.size at h
  unfold FileInfo.after
  rw [BitVec.toNat_add, BitVec.toNat_ofNat, pad4_length, hlen]
  unfold FileInfo.size Uploadsz at *
  omega

/-- Only the last piece is padded: the pieces of the file make the padded file. -/
theorem pad4_pieces {f : FileInfo} {off : BitVec 32} (h : off.toNat < f.size) :
    pad4 (f.data.drop off.toNat) =
      pad4 (f.piece off.toNat) ++ pad4 (f.data.drop (f.after off).toNat) := by
  obtain ⟨hafter, -⟩ := after_toNat h
  rw [hafter]
  unfold FileInfo.piece
  by_cases hlong : Uploadsz ≤ (f.data.drop off.toNat).length
  · have hfull : pad4 ((f.data.drop off.toNat).take Uploadsz) =
        (f.data.drop off.toNat).take Uploadsz := by
      have hlen : ((f.data.drop off.toNat).take Uploadsz).length = 2048 :=
        List.length_take_of_le hlong
      simp [pad4, hlen]
    rw [hfull, List.length_take_of_le hlong]
    have hsplit := List.take_append_drop Uploadsz (f.data.drop off.toNat)
    rw [List.drop_drop] at hsplit
    conv_lhs => rw [← hsplit]
    have hmod : ((f.data.drop off.toNat).take Uploadsz).length % 4 = 0 := by
      rw [List.length_take_of_le hlong]
      rfl
    unfold pad4
    rw [List.length_append, Nat.add_mod, hmod, Nat.zero_add, Nat.mod_mod, List.append_assoc]
  · have hlast : f.data.drop (off.toNat + (pad4 (f.data.drop off.toNat)).length) = [] := by
      rw [List.drop_eq_nil_iff, pad4_length, List.length_drop]
      omega
    rw [List.take_of_length_le (by omega), hlast]
    simp [pad4]

/-! ## The loops -/

variable {f : FileInfo} {ctl : Loader} {s : Upload}

/-- What a piece holds when it was padded. -/
theorem piece_padded (buf : Buf) {off : BitVec 32} (h : off.toNat < f.size) :
    let r := read_file_in_buffer f buf Uploadsz off
    (zeroPad r.2 r.1).1.first (zeroPad r.2 r.1).2 = pad4 (f.piece off.toNat) ∧
      (zeroPad r.2 r.1).2 = (pad4 (f.piece off.toNat)).length := by
  obtain ⟨hfirst, -⟩ := read_spec f buf off h
  dsimp only
  have hpad := zeroPad_first (read_file_in_buffer f buf Uploadsz off).2
    (read_file_in_buffer f buf Uploadsz off).1
  rw [hfirst] at hpad
  refine ⟨hpad, ?_⟩
  rw [← hpad, first_length]

/-- A file of five bytes, as the firmware of the chip. -/
def smallFiles : Files := ⟨⟨[1, 2, 3, 4, 5], by decide⟩, emptyFile⟩

end rpi_wifi.ether4330
