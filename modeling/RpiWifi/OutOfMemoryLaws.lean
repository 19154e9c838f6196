-- The law of the refused requests: which calls follow no null pointer and hold nothing when
-- they give up, for every placement of the refusals. `allocb` leaves the heap as it was but
-- for one case, where the record is given and the buffer is not.
import RpiWifi.OutOfMemory

namespace rpi_wifi.out_of_memory

open holdings runs memory kernel_alloc ether4330 ether4330.settings block_pointers driver_locks
  chains plibc

/-! ## Blocks -/

section
variable {H P : Type} {M : Supply H (BitVec 32) P} {w : World H P Lock} {h : H}
  {size : BitVec 32} {b buf : P}

/-- The world after `allocb`, with what it holds then. -/
def afterBlock (M : Supply H (BitVec 32) P) (w : World H P Lock) (size : BitVec 32)
    (given : List P) : World H P Lock :=
  { w with heap := M.after (M.after w.heap sizeofBlock) (size + maxhdrsize), own := given ++ w.own }

theorem run_allocb_refused (h1 : (M.request w.heap sizeofBlock).2 = none) :
    (allocb M size).run w = some (none, { w with heap := M.after w.heap sizeofBlock }) := by
  unfold allocb
  rw [run_bind_of_some (run_ask _), h1]
  rfl

theorem run_allocb_stranded (h1 : (M.request w.heap sizeofBlock).2 = some b)
    (h2 : (M.request (M.after w.heap sizeofBlock) (size + maxhdrsize)).2 = none) :
    (allocb M size).run w = some (none, afterBlock M w size [b]) := by
  unfold allocb
  rw [run_bind_of_some (run_ask _), h1]
  dsimp only
  rw [run_bind_of_some (run_ask _)]
  unfold Supply.after at h2
  dsimp only
  rw [h2]
  rfl

theorem run_allocb_given (h1 : (M.request w.heap sizeofBlock).2 = some b)
    (h2 : (M.request (M.after w.heap sizeofBlock) (size + maxhdrsize)).2 = some buf) :
    (allocb M size).run w = some (some ⟨b, buf⟩, afterBlock M w size [buf, b]) := by
  unfold allocb
  rw [run_bind_of_some (run_ask _), h1]
  dsimp only
  rw [run_bind_of_some (run_ask _)]
  unfold Supply.after at h2
  dsimp only
  rw [h2]
  rfl

/-- A Block is refused with its record, refused behind its record, or given. -/
theorem allocb_cases (M : Supply H (BitVec 32) P) (w : World H P Lock) (size : BitVec 32) :
    (¬ M.Grants w.heap sizeofBlock ∧
      (allocb M size).run w = some (none, { w with heap := M.after w.heap sizeofBlock })) ∨
    (Stranded M w.heap size ∧
      ∃ b, (allocb M size).run w = some (none, afterBlock M w size [b])) ∨
    (BlockGiven M w.heap size ∧
      ∃ b buf, (allocb M size).run w = some (some ⟨b, buf⟩, afterBlock M w size [buf, b])) := by
  unfold Stranded BlockGiven Supply.Grants
  rcases h1 : (M.request w.heap sizeofBlock).2 with _ | b
  · exact .inl ⟨fun hne => hne rfl, run_allocb_refused h1⟩
  · rcases h2 : (M.request (M.after w.heap sizeofBlock) (size + maxhdrsize)).2 with _ | buf
    · exact .inr (.inl ⟨⟨by simp, by simp⟩, b, run_allocb_stranded h1 h2⟩)
    · exact .inr (.inr ⟨⟨by simp, by simp⟩, b, buf, run_allocb_given h1 h2⟩)

theorem not_given_of_refused (h1 : ¬ M.Grants h sizeofBlock) : ¬ BlockGiven M h size :=
  fun hgiven => h1 hgiven.1

theorem not_given_of_stranded (hs : Stranded M h size) : ¬ BlockGiven M h size :=
  fun hgiven => hs.2 hgiven.2

/-! ## The calls -/

theorem send_frame_sound_iff (frame_buffer oq : Option P) (length : BitVec 32) :
    Sound (send_frame M frame_buffer oq length) h ↔
      ¬ Stranded M h length ∧
        (BlockGiven M h length → frame_buffer ≠ none ∧ oq ≠ none) := by
  rcases allocb_cases M ⟨h, [], []⟩ length with ⟨h1, hrun⟩ | ⟨hs, b, hrun⟩ | ⟨hgiven, b, buf, hrun⟩
  · refine iff_of_true ?_ ⟨fun hs => h1 hs.1, fun hgiven => absurd hgiven.1 h1⟩
    have hend : (send_frame M frame_buffer oq length).run ⟨h, [], []⟩ =
        some (.gaveUp, ⟨M.after h sizeofBlock, [], []⟩) := by
      unfold send_frame
      rw [run_bind_of_some hrun]
      rfl
    exact (sound_iff_of_run hend).mpr fun _ => ⟨rfl, rfl⟩
  · refine iff_of_false ?_ fun hno => hno.1 hs
    have hend : (send_frame M frame_buffer oq length).run ⟨h, [], []⟩ =
        some (.gaveUp, afterBlock M ⟨h, [], []⟩ length [b]) := by
      unfold send_frame
      rw [run_bind_of_some hrun]
      rfl
    rw [sound_iff_of_run hend]
    simp [afterBlock]
  · have hfree : ¬ Stranded M h length := fun hs => hs.2 hgiven.2
    have hend : (send_frame M frame_buffer oq length).run ⟨h, [], []⟩ =
        some (if frame_buffer ≠ none ∧ oq ≠ none then .finished else .gaveUp,
          afterBlock M ⟨h, [], []⟩ length [buf, b]) := by
      unfold send_frame
      rw [run_bind_of_some hrun]
      cases frame_buffer with
      | none => rfl
      | some p => cases oq <;> rfl
    rw [sound_iff_of_run hend]
    by_cases hready : frame_buffer ≠ none ∧ oq ≠ none
    · rw [if_pos hready]
      simp [hfree, hready]
    · rw [if_neg hready]
      simp [afterBlock, hgiven, hready]

theorem parsecmd_sound_iff : Sound (parsecmd M) h ↔ M.Grants h sizeofCmdbuf := by
  unfold Supply.Grants
  rcases h1 : (M.request h sizeofCmdbuf).2 with _ | p
  · refine iff_of_false (not_sound_of_null ?_) fun hne => hne rfl
    unfold parsecmd
    rw [run_bind_of_some (run_ask _), h1]
    exact run_bind_of_none run_follow_none
  · refine iff_of_true (sound_of_end ?_) (by simp)
    unfold parsecmd
    rw [run_bind_of_some (run_ask _), h1]
    exact ⟨_, _, rfl, by simp⟩

theorem run_memcpy_null {n : BitVec 32} (h0 : n ≠ 0) : (memcpy none n).run w = none := by
  unfold memcpy
  rw [if_pos h0]
  exact run_bind_of_none run_follow_none

theorem run_memcpy {p : Option P} {n : BitVec 32} (hp : n = 0 ∨ p ≠ none) :
    (memcpy p n).run w = some ((), w) := by
  unfold memcpy
  by_cases h0 : n = 0
  · rw [if_neg (not_not.mpr h0)]
    rfl
  · obtain ⟨q, rfl⟩ := Option.ne_none_iff_exists'.mp (hp.resolve_left h0)
    rw [if_pos h0]
    rfl

theorem list_push_back_sound_iff (data_size : BitVec 32) :
    Sound (list_push_back M data_size) h ↔
      M.Grants h sizeofNode ∧ (data_size = 0 ∨ M.Grants (M.after h sizeofNode) data_size) := by
  unfold Supply.Grants Supply.after
  rcases h1 : (M.request h sizeofNode).2 with _ | node
  · refine iff_of_false (not_sound_of_null ?_) fun hno => hno.1 rfl
    unfold list_push_back
    rw [run_bind_of_some (run_ask _), h1, run_bind_of_some (run_ask _)]
    exact run_bind_of_none run_follow_none
  · by_cases hdata : data_size = 0 ∨ (M.request (M.request h sizeofNode).1 data_size).2 ≠ none
    · refine iff_of_true (sound_of_end ?_) ⟨by simp, hdata⟩
      unfold list_push_back
      rw [run_bind_of_some (run_ask _), h1, run_bind_of_some (run_ask _),
        run_bind_of_some (run_follow_some _)]
      dsimp only
      rw [run_bind_of_some (run_memcpy hdata)]
      exact ⟨_, _, rfl, by simp⟩
    · refine iff_of_false (not_sound_of_null ?_) fun hno => hdata hno.2
      obtain ⟨h0, h2⟩ := not_or.mp hdata
      unfold list_push_back
      rw [run_bind_of_some (run_ask _), h1, run_bind_of_some (run_ask _),
        run_bind_of_some (run_follow_some _)]
      dsimp only
      rw [not_not.mp h2]
      exact run_bind_of_none (run_memcpy_null h0)

/-! ## The calls that hand back -/

variable [DecidableEq P]

theorem run_freeb_null : (freeb M none).run w = none := rfl

theorem run_freeb (b : Block P) :
    (freeb M (some b)).run w =
      some ((), { w with
        heap := M.takeBack (M.takeBack w.heap b.buf) b.record
        own := (w.own.erase b.buf).erase b.record }) := rfl

/-- The loop over the packets ends or waits; it follows no null pointer. -/
theorem run_readPackets (b : Block P) (ps : List Packet) :
    ∃ r w', (readPackets M b ps).run w = some (r, w') := by
  induction ps with
  | nil => exact ⟨_, _, rfl⟩
  | cons p ps ih =>
    unfold readPackets
    split
    · exact ⟨_, _, run_bind_of_some (run_freeb b)⟩
    · split
      · exact ⟨_, _, rfl⟩
      · exact ih

theorem wlreadpkt_sound_iff (offered : List Packet) :
    Sound (wlreadpkt M offered) h ↔ BlockGiven M h 2048 := by
  rcases allocb_cases M ⟨h, [], []⟩ 2048 with ⟨h1, hrun⟩ | ⟨hs, b, hrun⟩ | ⟨hgiven, b, buf, hrun⟩
  · refine iff_of_false (not_sound_of_null ?_) (not_given_of_refused h1)
    unfold wlreadpkt
    rw [run_bind_of_some hrun]
    exact run_bind_of_none run_follow_none
  · refine iff_of_false (not_sound_of_null ?_) (not_given_of_stranded hs)
    unfold wlreadpkt
    rw [run_bind_of_some hrun]
    exact run_bind_of_none run_follow_none
  · refine iff_of_true ?_ hgiven
    generalize afterBlock M ⟨h, [], []⟩ 2048 [buf, b] = w at hrun
    obtain ⟨r, w', hread⟩ := run_readPackets (M := M) (w := { w with held := .pktlock :: w.held })
      ⟨b, buf⟩ offered
    apply sound_of_end
    unfold wlreadpkt
    rw [run_bind_of_some hrun, run_bind_of_some (run_follow_some _),
      run_bind_of_some (run_acquireLock _), run_bind_of_some hread]
    cases r with
    | none => exact ⟨_, _, rfl, by simp⟩
    | some r => exact ⟨_, _, rfl, by simp⟩

theorem wlcmd_sound_iff (write : Bool) (dlen rlen : Int) (rsp : Option (Block P)) :
    Sound (wlcmd M write dlen rlen rsp) h ↔ BlockGiven M h (commandSize write dlen rlen) := by
  rcases allocb_cases M ⟨h, [], []⟩ (commandSize write dlen rlen) with
    ⟨h1, hrun⟩ | ⟨hs, b, hrun⟩ | ⟨hgiven, b, buf, hrun⟩
  · refine iff_of_false (not_sound_of_null ?_) (not_given_of_refused h1)
    unfold wlcmd
    rw [run_bind_of_some hrun]
    exact run_bind_of_none run_freeb_null
  · refine iff_of_false (not_sound_of_null ?_) (not_given_of_stranded hs)
    unfold wlcmd
    rw [run_bind_of_some hrun]
    exact run_bind_of_none run_freeb_null
  · refine iff_of_true ?_ hgiven
    apply sound_of_end
    unfold wlcmd
    rw [run_bind_of_some hrun]
    cases rsp with
    | none => exact ⟨_, _, rfl, by simp⟩
    | some r => exact ⟨_, _, rfl, by simp⟩

end

/-! ## The comparison -/

section
variable {H P : Type} {w : World H P Lock} {readback : BitVec 32 → Byte} {f : FileInfo}
  {ctl : Loader} {s : Upload} {off : BitVec 32} {xs ys : List Byte}

theorem fetch_length (n : Nat) : (fetch readback off n).length = n := by
  simp [fetch]

theorem fetch_append (m n : Nat) :
    fetch readback off (m + n) =
      fetch readback off m ++ fetch readback (off + BitVec.ofNat 32 m) n := by
  unfold fetch
  rw [List.range_add, List.map_append, List.map_map]
  congr 1
  apply List.map_congr_left
  intro i _
  rw [← upFrom_add]
  rfl

theorem readsBack_append :
    ReadsBack readback off (xs ++ ys) ↔
      ReadsBack readback off xs ∧ ReadsBack readback (off + BitVec.ofNat 32 xs.length) ys := by
  unfold ReadsBack
  rw [List.length_append, fetch_append]
  constructor
  · exact fun h => List.append_inj h (fetch_length _)
  · rintro ⟨hx, hy⟩
    rw [hx, hy]

theorem memcmp_fetch (readback : BitVec 32 → Byte) (off : BitVec 32) (xs : List Byte) :
    memcmp xs (fetch readback off xs.length) = 0 ↔ ReadsBack readback off xs := by
  unfold ReadsBack
  constructor
  · exact fun h => (eq_of_memcmp (fetch_length _).symm h).symm
  · intro h
    rw [h, memcmp_self]

/-- Without a second buffer the comparison goes on only at the end of the file. -/
theorem run_compareLoop_null :
    (compareLoop readback f ctl none s : Work H P Lock Bool).run w =
      if f.size ≤ s.off.toNat then some (true, w) else none := by
  unfold compareLoop
  dsimp only
  by_cases hend : f.size ≤ s.off.toNat
  · rw [dif_pos ((read_eq_zero_iff _ _ _ _).mpr hend), if_pos hend]
    rfl
  · rw [dif_neg ((read_eq_zero_iff _ _ _ _).not.mpr hend), if_neg hend]
    exact run_bind_of_none run_follow_none

/-- With a second buffer it says whether the rest of the file was read back. -/
theorem run_compareLoop (cbuf : P) :
    (compareLoop readback f ctl (some cbuf) s : Work H P Lock Bool).run w =
      some (decide (ReadsBack readback (ctl.rambase + s.off) (pad4 (f.data.drop s.off.toNat))),
        w) := by
  induction hk : f.size - s.off.toNat using Nat.strong_induction_on generalizing s with
  | _ k ih =>
    unfold compareLoop
    dsimp only
    by_cases hend : f.size ≤ s.off.toNat
    · have hdrop : f.data.drop s.off.toNat = [] := List.drop_eq_nil_iff.mpr hend
      rw [dif_pos ((read_eq_zero_iff _ _ _ _).mpr hend), hdrop]
      rfl
    · have hlt := Nat.lt_of_not_le hend
      obtain ⟨hpad, hn⟩ := piece_padded s.buf hlt
      obtain ⟨-, hafter⟩ := after_toNat hlt
      rw [dif_neg ((read_eq_zero_iff _ _ _ _).not.mpr hend), run_bind_of_some (run_follow_some _),
        hpad, hn, pad4_pieces hlt]
      simp only [readsBack_append]
      by_cases hback : ReadsBack readback (ctl.rambase + s.off) (pad4 (f.piece s.off.toNat))
      · rw [if_neg (not_not.mpr ((memcmp_fetch _ _ _).mpr hback))]
        have hrest := ih (f.size - (f.after s.off).toNat) (by omega)
          (s := { s with
            buf := (zeroPad (read_file_in_buffer f s.buf Uploadsz s.off).2
              (read_file_in_buffer f s.buf Uploadsz s.off).1).1
            n := (pad4 (f.piece s.off.toNat)).length
            off := f.after s.off }) rfl
        have haddr : ctl.rambase + f.after s.off = ctl.rambase + s.off +
            BitVec.ofNat 32 (pad4 (f.piece s.off.toNat)).length := by
          rw [FileInfo.after, BitVec.add_assoc]
        refine hrest.trans ?_
        simp only [haddr, hback, true_and]
      · rw [if_pos (mt (memcmp_fetch _ _ _).mp hback)]
        simp [hback]

theorem run_compareConfig_null :
    (compareConfig readback ctl none s : Work H P Lock Bool).run w =
      if s.n = 0 then some (true, w) else none := by
  unfold compareConfig
  by_cases h0 : s.n = 0
  · rw [if_neg (not_not.mpr h0), if_pos h0, h0]
    rfl
  · rw [if_pos h0, if_neg h0]
    exact run_bind_of_none run_follow_none

theorem run_compareConfig (cbuf : P) :
    (compareConfig readback ctl (some cbuf) s : Work H P Lock Bool).run w =
      some (decide (ReadsBack readback (ctl.rambase + s.off) (s.buf.first s.n)), w) := by
  have hverdict := memcmp_fetch readback (ctl.rambase + s.off) (s.buf.first s.n)
  rw [first_length] at hverdict
  unfold compareConfig
  simp only [hverdict]
  by_cases h0 : s.n = 0
  · rw [if_neg (not_not.mpr h0)]
    rfl
  · rw [if_pos h0]
    rfl

/-- Settings end with a NUL, so that there are always some. -/
theorem condenseText_ne_nil (text : List Byte) : condenseText text ≠ [] := by
  have hend : condense (fun i => text.getD i 0) text.length =
      zeroPad ((Condense.close (scanned (fun i => text.getD i 0) text.length)).put 0).buf
        ((Condense.close (scanned (fun i => text.getD i 0) text.length)).put 0).op := rfl
  have hput : ∀ s : Condense, (s.put 0).op = s.op + 1 := fun _ => rfl
  intro h
  have hlen := congrArg List.length h
  unfold condenseText at hlen
  dsimp only at hlen
  rw [first_length, hend, zeroPad_snd, hput, List.length_nil] at hlen
  omega

end

/-! ## The upload -/

section
variable {H P : Type} {M : Supply H (BitVec 32) P} {w : World H P Lock} {h : H} {answer : Answer}
  {readback : BitVec 32 → Byte} {files : Files} {f : FileInfo} {ctl : Loader}
  {file : CString} {isconfig : Bool} {garbage : Buf}

theorem size_zero_iff : f.size ≤ (0 : BitVec 32).toNat ↔ f.data = [] := by
  unfold FileInfo.size
  simp

/-- What the first loop leaves for the comparison of the settings. -/
theorem config_transferred (answer : Answer) (ctl : Loader) (garbage : Buf) (hne : f.data ≠ []) :
    let t := transferLoop answer f ctl true ⟨ctl.chip, garbage, ctl.resetvec, 0, 0⟩
    t.buf.first t.n = (uploaded f ctl true).2 ∧ ctl.rambase + t.off = (uploaded f ctl true).1 ∧
      t.n ≠ 0 := by
  obtain ⟨-, hfirst, hbase⟩ := @transferLoop_config answer ctl f
    ⟨ctl.chip, garbage, ctl.resetvec, 0, 0⟩ rfl hne
  refine ⟨hfirst, hbase, ?_⟩
  intro h0
  rw [h0] at hfirst
  exact condenseText_ne_nil _ hfirst.symm

theorem config_empty (hempty : f.data = []) :
    (transferLoop answer f ctl true ⟨ctl.chip, garbage, ctl.resetvec, 0, 0⟩).n = 0 := by
  unfold transferLoop
  dsimp only
  rw [dif_pos ((read_eq_zero_iff _ _ _ _).mpr (size_zero_iff.mpr hempty))]

/-- Without a second buffer the comparison follows a null pointer, but for an empty file. -/
theorem run_compare_null :
    (compare readback f ctl isconfig none
      (transferLoop answer f ctl isconfig ⟨ctl.chip, garbage, ctl.resetvec, 0, 0⟩) :
        Work H P Lock Bool).run w = if f.data = [] then some (true, w) else none := by
  unfold compare
  cases isconfig with
  | true =>
    rw [if_pos rfl, run_compareConfig_null]
    by_cases hempty : f.data = []
    · rw [if_pos hempty, if_pos (config_empty hempty)]
    · rw [if_neg hempty, if_neg (config_transferred answer ctl garbage hempty).2.2]
  | false =>
    rw [if_neg Bool.false_ne_true, run_compareLoop_null]
    simp only [size_zero_iff]

/-- With a second buffer it says whether the chip gives back what was written. -/
theorem run_compare (cbuf : P) :
    (compare readback f ctl isconfig (some cbuf)
      (transferLoop answer f ctl isconfig ⟨ctl.chip, garbage, ctl.resetvec, 0, 0⟩) :
        Work H P Lock Bool).run w =
      some (decide (f.data = [] ∨
        ReadsBack readback (uploaded f ctl isconfig).1 (uploaded f ctl isconfig).2), w) := by
  unfold compare
  cases isconfig with
  | true =>
    rw [if_pos rfl, run_compareConfig]
    by_cases hempty : f.data = []
    · rw [config_empty hempty]
      simp [hempty, ReadsBack, fetch, Buf.first]
    · obtain ⟨hfirst, hbase, -⟩ := config_transferred answer ctl garbage hempty
      rw [hfirst, hbase]
      simp [hempty]
  | false =>
    rw [if_neg Bool.false_ne_true, run_compareLoop]
    unfold uploaded
    by_cases hempty : f.data = []
    · simp [hempty, pad4, ReadsBack, fetch]
    · simp [hempty]

variable [DecidableEq P]

theorem run_uploadInto_null {buf : P} (hne : f.data ≠ []) :
    (uploadInto M answer readback f ctl isconfig garbage buf none).run w = none := by
  unfold uploadInto
  exact run_bind_of_none (run_compare_null.trans (if_neg hne))

/-- With its buffers, or for an empty file, it hands all back when the chip gives back what
was written. -/
theorem run_uploadInto {buf : P} {cbuf : Option P} (hcbuf : f.data = [] ∨ cbuf ≠ none)
    (hback : f.data = [] ∨
      ReadsBack readback (uploaded f ctl isconfig).1 (uploaded f ctl isconfig).2) :
    ∃ w', (uploadInto M answer readback f ctl isconfig garbage buf cbuf).run w =
      some (.finished, w') := by
  have hsame : (compare readback f ctl isconfig cbuf
      (transferLoop answer f ctl isconfig ⟨ctl.chip, garbage, ctl.resetvec, 0, 0⟩)).run w =
        some (true, w) := by
    cases cbuf with
    | none => exact run_compare_null.trans (if_pos (hcbuf.resolve_right fun hne => hne rfl))
    | some p => rw [run_compare, decide_eq_true hback]
  unfold uploadInto
  dsimp only
  rw [run_bind_of_some hsame]
  exact ⟨_, rfl⟩

/-- Where the chip gives back something else, it gives up and keeps all. -/
theorem run_uploadInto_differs {buf cbuf : P} (hdiff : ¬ (f.data = [] ∨
      ReadsBack readback (uploaded f ctl isconfig).1 (uploaded f ctl isconfig).2)) :
    (uploadInto M answer readback f ctl isconfig garbage buf (some cbuf)).run w =
      some (.gaveUp, w) := by
  unfold uploadInto
  dsimp only
  rw [run_bind_of_some (run_compare cbuf), decide_eq_false hdiff]
  rfl

theorem upload_sound_of_missing (hf : findfirmware files file = none) :
    Sound (upload M answer readback files ctl file isconfig garbage) h := by
  have hend : (upload M answer readback files ctl file isconfig garbage).run ⟨h, [], []⟩ =
      some (.gaveUp, ⟨h, [], []⟩) := by
    unfold upload
    rw [hf]
    rfl
  exact (sound_iff_of_run hend).mpr fun _ => ⟨rfl, rfl⟩

theorem upload_sound_of_refused (hf : findfirmware files file = some f)
    (h1 : (M.request h (BitVec.ofNat 32 Uploadsz)).2 = none) :
    Sound (upload M answer readback files ctl file isconfig garbage) h := by
  have hend : (upload M answer readback files ctl file isconfig garbage).run ⟨h, [], []⟩ =
      some (.gaveUp, ⟨M.after h (BitVec.ofNat 32 Uploadsz), [], []⟩) := by
    unfold upload
    rw [hf]
    dsimp only
    rw [run_bind_of_some (run_ask _), h1]
    rfl
  exact (sound_iff_of_run hend).mpr fun _ => ⟨rfl, rfl⟩

/-- The requests of an upload whose file was found and whose first buffer was given. -/
theorem run_upload (answer : Answer) (readback : BitVec 32 → Byte) (ctl : Loader) (isconfig : Bool)
    (garbage : Buf) {buf : P} (hf : findfirmware files file = some f)
    (h1 : (M.request h (BitVec.ofNat 32 Uploadsz)).2 = some buf) :
    ∃ w, w.own ≠ [] ∧
      (upload M answer readback files ctl file isconfig garbage).run ⟨h, [], []⟩ =
        (uploadInto M answer readback f ctl isconfig garbage buf
          (M.request (M.after h (BitVec.ofNat 32 Uploadsz)) (BitVec.ofNat 32 Uploadsz)).2).run
          w := by
  let k := M.after h (BitVec.ofNat 32 Uploadsz)
  refine ⟨⟨M.after k (BitVec.ofNat 32 Uploadsz),
    (M.request k (BitVec.ofNat 32 Uploadsz)).2.toList ++ [buf], []⟩, by simp, ?_⟩
  unfold upload
  rw [hf]
  dsimp only
  rw [run_bind_of_some (run_ask _), h1]
  exact run_bind_of_some (run_ask _)

theorem upload_sound_of_given {buf : P} (hf : findfirmware files file = some f)
    (h1 : (M.request h (BitVec.ofNat 32 Uploadsz)).2 = some buf) :
    Sound (upload M answer readback files ctl file isconfig garbage) h ↔
      f.data = [] ∨
        M.Grants (M.after h (BitVec.ofNat 32 Uploadsz)) (BitVec.ofNat 32 Uploadsz) ∧
          ReadsBack readback (uploaded f ctl isconfig).1 (uploaded f ctl isconfig).2 := by
  obtain ⟨w, hown, hrun⟩ := run_upload answer readback ctl isconfig garbage hf h1
  unfold Supply.Grants
  generalize (M.request (M.after h (BitVec.ofNat 32 Uploadsz)) (BitVec.ofNat 32 Uploadsz)).2 = cbuf
    at hrun
  by_cases hempty : f.data = []
  · refine iff_of_true (sound_of_end ?_) (.inl hempty)
    obtain ⟨w', hend⟩ : ∃ w', (uploadInto M answer readback f ctl isconfig garbage buf cbuf).run w =
      some (.finished, w') := run_uploadInto (.inl hempty) (.inl hempty)
    exact ⟨_, w', hrun.trans hend, by simp⟩
  · rcases cbuf with _ | cbuf
    · refine iff_of_false (not_sound_of_null (hrun.trans (run_uploadInto_null hempty))) ?_
      simp [hempty]
    · by_cases hback : ReadsBack readback (uploaded f ctl isconfig).1 (uploaded f ctl isconfig).2
      · refine iff_of_true (sound_of_end ?_) (.inr ⟨by simp, hback⟩)
        obtain ⟨w', hend⟩ : ∃ w',
            (uploadInto M answer readback f ctl isconfig garbage buf (some cbuf)).run w =
              some (.finished, w') := run_uploadInto (.inr (by simp)) (.inr hback)
        exact ⟨_, w', hrun.trans hend, by simp⟩
      · have hdiff := not_or.mpr ⟨hempty, hback⟩
        rw [sound_iff_of_run (hrun.trans (run_uploadInto_differs hdiff))]
        simp [hown, hempty, hback]

theorem upload_sound_iff :
    Sound (upload M answer readback files ctl file isconfig garbage) h ↔
      (Call.upload answer readback files ctl file isconfig garbage).Survives M h := by
  unfold Call.Survives
  rcases hf : findfirmware files file with _ | f
  · refine iff_of_true (upload_sound_of_missing hf) ?_
    intro f hsome
    rw [hf] at hsome
    cases hsome
  · rcases h1 : (M.request h (BitVec.ofNat 32 Uploadsz)).2 with _ | buf
    · exact iff_of_true (upload_sound_of_refused hf h1) fun _ _ hgiven => absurd h1 hgiven
    · rw [upload_sound_of_given hf h1]
      constructor
      · intro hkeep g hg _
        rw [hf] at hg
        cases hg
        exact hkeep
      · exact fun hall => hall f hf (by simp [Supply.Grants, h1])

/-- A call follows no null pointer and holds nothing when it gives up exactly when it has
what it needs. -/
theorem call_sound_iff (c : Call P) : Sound (c.task M) h ↔ c.Survives M h := by
  cases c with
  | wlreadpkt offered => exact wlreadpkt_sound_iff offered
  | wlcmd write dlen rlen rsp => exact wlcmd_sound_iff write dlen rlen rsp
  | send_frame frame_buffer oq length => exact send_frame_sound_iff frame_buffer oq length
  | parsecmd => exact parsecmd_sound_iff
  | list_push_back data_size => exact list_push_back_sound_iff data_size
  | upload answer readback files ctl file isconfig garbage => exact upload_sound_iff

end

/-! ## The heap -/

section
variable {base : Nat} {s : Arena} {lists : Fin 7 → List Nat} {size : BitVec 32}

theorem refuses_iff (s : Heap) (size : BitVec 32) :
    s.refuses size ↔ s.full (recorded size.toNat) ∧
      ∀ i, bucketFor size.toNat = some i → s.free_list i = 0 := by
  unfold Heap.refuses recorded
  rcases bucketFor size.toNat with _ | i
  · simp
  · simp [and_comm]

theorem grants_iff (hs : BlocksOk base s.heap) (size : BitVec 32) :
    kernelSupply.Grants s size ↔ ¬ s.heap.refuses size := by
  rw [← hs.null_iff size]
  unfold Supply.Grants kernelSupply
  simp

theorem after_heap (s : Arena) (size : BitVec 32) :
    (kernelSupply.after s size).heap = (kernel_allocate s.heap size).1 := rfl

theorem after_live (s : Arena) (size : BitVec 32) :
    (kernelSupply.after s size).live =
      if (kernel_allocate s.heap size).2 = 0 then s.live
      else ⟨(kernel_allocate s.heap size).2, size.toNat⟩ :: s.live := rfl

theorem blocksOk_after (hs : BlocksOk base s.heap) (size : BitVec 32) :
    BlocksOk base (kernelSupply.after s size).heap := (hs.allocate size).1

/-- The pointers of a Block are there exactly when its record and its buffer are given. -/
theorem pointers_given_iff (s : Arena) (size : BitVec 32) :
    (block_pointers.allocb s.heap size).2 ≠ none ↔ BlockGiven kernelSupply s size := by
  unfold block_pointers.allocb BlockGiven Supply.Grants Supply.after kernelSupply
  by_cases h1 : (kernel_allocate s.heap sizeofBlock).2 = 0
  · simp [h1]
  · by_cases h2 : (kernel_allocate (kernel_allocate s.heap sizeofBlock).1 (size + maxhdrsize)).2 = 0
    · simp [h1, h2, Arena.returned]
    · simp [h1, h2, Arena.returned]

theorem bucketFor_record : bucketFor sizeofBlock.toNat = some 0 := by decide

/-- Behind the record, the buffer is refused in the heap that is left. -/
theorem stranded_iff (hs : BlocksOk base s.heap) :
    Stranded kernelSupply s size ↔ StrandsBlock s.heap size := by
  unfold Stranded StrandsBlock
  dsimp only
  rw [grants_iff hs, grants_iff (blocksOk_after hs _), not_not, refuses_iff _ (size + maxhdrsize)]
  apply and_congr_right
  intro hgiven
  rw [after_heap]
  rcases hs.allocate_cases sizeofBlock with ⟨hr, -⟩ | ⟨-, i, hi, -, h0, -, heq⟩ | ⟨-, -, hnone, heq⟩
  · exact absurd hr hgiven
  · obtain rfl : 0 = i := Option.some.inj (bucketFor_record.symm.trans hi)
    rw [heq, if_neg h0]
    apply and_congr
    · exact Iff.rfl
    · apply forall_congr'
      intro j
      apply imp_congr_right
      intro _
      by_cases hj : j = 0
      · subst hj
        simp [h0]
      · simp [hj]
  · have h0 := hnone 0 bucketFor_record
    have hsize : recorded sizeofBlock.toNat = bucketSize 0 := by
      unfold recorded
      rw [bucketFor_record]
      rfl
    rw [heq, if_pos h0, hsize]
    apply and_congr
    · exact Iff.rfl
    · apply forall_congr'
      intro j
      apply imp_congr_right
      intro _
      by_cases hj : j = 0
      · subst hj
        simp [Heap.carved, h0]
      · simp [Heap.carved, hj]

/-- A refused request leaves the blocks in use and the free lists. -/
theorem refused_after (hs : BlocksOk base s.heap) (h1 : ¬ kernelSupply.Grants s size) :
    (kernelSupply.after s size).live = s.live ∧
      SameLists s.heap (kernelSupply.after s size).heap := by
  rw [grants_iff hs, not_not] at h1
  have hnull := (hs.null_iff size).mpr h1
  rw [after_live, if_pos hnull, after_heap]
  rcases hs.allocate_cases size with ⟨-, heq⟩ | ⟨hgiven, -⟩ | ⟨hgiven, -⟩
  · rw [heq]
    exact ⟨rfl, fun _ _ => Iff.rfl⟩
  · exact absurd h1 hgiven
  · exact absurd h1 hgiven

/-- `allocb` leaves the heap when it gives no Block, unless the record was given. -/
theorem allOrNothing_iff (hs : BlocksOk base s.heap) :
    AllOrNothing s size ↔ ¬ StrandsBlock s.heap size := by
  rw [← stranded_iff hs]
  rcases allocb_cases kernelSupply ⟨s, [], []⟩ size with
    ⟨h1, hrun⟩ | ⟨hstranded, b, hrun⟩ | ⟨hgiven, b, buf, hrun⟩
  · refine iff_of_true ?_ fun hstranded => h1 hstranded.1
    intro w hw
    rw [hrun] at hw
    cases hw
    exact refused_after hs h1
  · refine iff_of_false ?_ (not_not.mpr hstranded)
    intro hall
    obtain ⟨hlive, -⟩ := hall _ hrun
    have h2 := (refused_after (blocksOk_after hs sizeofBlock) hstranded.2).1
    have h1 : (kernel_allocate s.heap sizeofBlock).2 ≠ 0 := by
      intro hnull
      exact (grants_iff hs sizeofBlock).mp hstranded.1 ((hs.null_iff _).mp hnull)
    have hrecord := (after_live s sizeofBlock).trans (if_neg h1)
    have hlen := congrArg List.length ((hrecord.symm.trans h2.symm).trans hlive)
    simp at hlen
  · refine iff_of_true ?_ fun hstranded => hstranded.2 hgiven.2
    intro w hw
    rw [hrun] at hw
    cases hw

end

/-! ## The law of the refused requests -/

/-- After every run of the heap, an `allocb` that gives no Block leaves the heap as it was
exactly when the heap does not have the record without the buffer. For every placement of
refusals, a call follows no null pointer and holds nothing when it gives up exactly when it
has what it needs. -/
theorem out_of_memory_is_handled_iff (mem : Mem) (ulBase ulSize : BitVec 32) (heap : Heap)
    (ops : List ClientOp) (s : Arena) (hinit : kernel_alloc_init mem ulBase ulSize = some heap)
    (hrun : exec ledgerStep ⟨heap, []⟩ ops = some s) :
    (∀ size, AllOrNothing s size ↔ ¬ StrandsBlock s.heap size) ∧
      ∀ (H P : Type) [DecidableEq P] (M : Supply H (BitVec 32) P) (h : H) (c : Call P),
        Sound (c.task M) h ↔ c.Survives M h := by
  obtain ⟨lists, hs⟩ := ledger_of_run hinit hrun
  exact ⟨fun size => allOrNothing_iff hs.blocks, fun H P _ M h c => call_sound_iff c⟩

/-- A file of five bytes, and a chip that gives them back. -/
def smallUpload (readback : BitVec 32 → Byte) : Call Nat :=
  .upload honest readback smallFiles (loaderOf 43430 1) (cstr "brcmfmac43430-sdio.bin") false
    fun _ => 0

/-- Two blocks are taken from a new heap and the first one is given back. -/
def smallHistory : List ClientOp :=
  [.allocate 100, .allocate 5000, .deallocate ⟨0x200010, 100⟩, .store 0x200420 7]

/-- A packet with a bad header, and one of twelve bytes. -/
def smallPackets : List Packet :=
  [[1, 0, 0, 0, 0, 0, 0, 0], [12, 0, 243, 255, 0, 0, 0, 12, 0, 0, 0, 0]]

/-- The heap has memory for a packet behind this history, `wlreadpkt` takes the second packet,
and without refusals the file is uploaded. -/
theorem a_new_heap_handles_its_calls :
    ∃ heap s, kernel_alloc_init (fun _ => 0) 0x200000 0x1000000 = some heap ∧
      exec ledgerStep ⟨heap, []⟩ smallHistory = some s ∧ AllOrNothing s 60 ∧
      Sound ((Call.wlreadpkt smallPackets).task kernelSupply) s ∧
      Sound ((smallUpload fun a => [1, 2, 3, 4, 5].getD a.toNat 0).task
        (scripted fun _ => false)) 0 := by
  refine ⟨_, _, rfl, rfl, ?_⟩
  obtain ⟨hheap, hcalls⟩ := out_of_memory_is_handled_iff (fun _ => 0) 0x200000 0x1000000 _
    smallHistory _ rfl rfl
  refine ⟨(hheap 60).mpr (by decide +kernel), ?_, ?_⟩
  · rw [hcalls]
    exact ⟨by decide +kernel, by decide +kernel⟩
  · rw [hcalls]
    intro f hf _
    obtain rfl : smallFiles.bin_file = f := Option.some.inj hf
    exact .inr ⟨by simp [Supply.Grants, scripted], by decide +kernel⟩

/-- A heap with room for a record keeps it when there is no buffer. Where the first or the
second request is refused, the calls follow a null pointer or keep what they have. -/
theorem out_of_memory_is_not_handled :
    (∃ heap, kernel_alloc_init (fun _ => 0) 0x200000 0x440050 = some heap ∧
      ¬ AllOrNothing ⟨heap, []⟩ 2048) ∧
    ¬ Sound ((Call.wlreadpkt []).task (scripted fun n => n = 0)) 0 ∧
    ¬ Sound ((Call.wlcmd true 4 4 none).task (scripted fun n => n = 0)) 0 ∧
    ¬ Sound ((Call.send_frame (some 7) (some 8) 60).task (scripted fun n => n = 1)) 0 ∧
    ¬ Sound (Call.parsecmd.task (scripted fun n => n = 0)) 0 ∧
    ¬ Sound ((Call.list_push_back 4).task (scripted fun n => n = 1)) 0 ∧
    ¬ Sound ((smallUpload fun a => [1, 2, 3, 4, 5].getD a.toNat 0).task
      (scripted fun n => n = 1)) 0 := by
  refine ⟨⟨_, rfl, ?_⟩, ?_⟩
  · have hinit : kernel_alloc_init (fun _ => 0) 0x200000 0x440050 = some _ := rfl
    obtain ⟨-, hledger, -⟩ := ledgerOk_init hinit
    rw [allOrNothing_iff hledger.blocks, not_not]
    decide +kernel
  · simp only [call_sound_iff]
    refine ⟨?_, ?_, ?_, ?_, ?_, ?_⟩
    · simp [Call.Survives, BlockGiven, Supply.Grants, scripted]
    · simp [Call.Survives, BlockGiven, Supply.Grants, scripted]
    · simp [Call.Survives, Stranded, Supply.Grants, Supply.after, scripted]
    · simp [Call.Survives, Supply.Grants, scripted]
    · simp [Call.Survives, Supply.Grants, Supply.after, scripted]
    · intro hall
      have hfound : findfirmware smallFiles (cstr "brcmfmac43430-sdio.bin") =
          some smallFiles.bin_file := rfl
      simpa [Supply.Grants, Supply.after, scripted, smallFiles] using hall _ hfound

end rpi_wifi.out_of_memory
