-- The heap of the kernel is an allocator: a block that it hands out was not in use, and a
-- block that is given back is not in use any more.
import RpiWifi.HeapLists
import RpiWifi.Allocators

namespace rpi_wifi.kernel_alloc

open allocators memory frame_alloc

/-- A heap of the kernel whose blocks do not meet, with the blocks in use. -/
abbrev SoundArena := { s : Arena // ∃ lists, ArenaOk s lists }

def SoundArena.blocks (s : SoundArena) : Set Nat := {p | p ∈ s.1.live.map Live.ptr}

/-- `kernel_allocate`. The sum of a header and a request is in 32 bits. -/
def request (s : SoundArena) (size : Nat) : SoundArena × Nat :=
  if h : (BitVec.ofNat 32 size).toNat + 31 < 2 ^ 32 then
    let r := kernel_allocate s.1.heap (BitVec.ofNat 32 size)
    (⟨s.1.returned r (BitVec.ofNat 32 size).toNat, s.2.elim fun _ hs => arenaOk_allocate hs h⟩, r.2)
  else (s, 0)

/-- `kernel_deallocate` of a block in use. -/
def release (s : SoundArena) (p : Nat) : SoundArena :=
  match h : s.1.live.find? (fun b => b.ptr = p) with
  | some b =>
    ⟨{ heap := kernel_deallocate s.1.heap b.ptr, live := s.1.live.erase b },
      s.2.elim fun _ hs => arenaOk_deallocate hs (List.mem_of_find?_eq_some h)⟩
  | none => s

/-- The heap that `kernel_alloc_init` has made, before the first call. -/
def initialized {fm : FrameManager} {mem : Mem} {ulSize : BitVec 32} {heap : Heap}
    (h : kernel_alloc_init mem
      (BitVec.ofNat 32 (alloc_contiguous_frames fm (ulSize.toNat / PAGE_SIZE)).2) ulSize =
        some heap) : SoundArena := ⟨⟨heap, []⟩, _, arenaOk_init h⟩

theorem request_fresh (s : SoundArena) (size : Nat) (h : (request s size).2 ≠ 0) :
    (request s size).2 ∉ s.blocks ∧
      (request s size).1.blocks = insert (request s size).2 s.blocks := by
  unfold request at h ⊢
  split at h
  · next hsize =>
    rw [dif_pos hsize]
    dsimp only at h ⊢
    obtain ⟨lists, hs⟩ := s.2
    obtain ⟨lists', hs'⟩ := arenaOk_allocate hs hsize
    have honce := hs'.once
    simp only [Arena.returned, if_neg h] at honce
    refine ⟨(List.nodup_cons.mp honce).1, ?_⟩
    ext p
    simp [SoundArena.blocks, Arena.returned, h]
  · exact absurd rfl h

theorem request_null (s : SoundArena) (size : Nat) (h : (request s size).2 = 0) :
    (request s size).1.blocks = s.blocks := by
  unfold request at h ⊢
  split at h
  · next hsize =>
    rw [dif_pos hsize]
    dsimp only at h ⊢
    simp [SoundArena.blocks, Arena.returned, h]
  · next hsize => rw [dif_neg hsize]

theorem release_blocks (s : SoundArena) (p : Nat) (h : p ∈ s.blocks) :
    (release s p).blocks = s.blocks \ {p} := by
  obtain ⟨lists, hs⟩ := s.2
  obtain ⟨c, hc, hcp⟩ := List.mem_map.mp h
  unfold release
  split
  · next b hfind =>
    have hb := List.mem_of_find?_eq_some hfind
    obtain rfl : b.ptr = p := by simpa using List.find?_some hfind
    have hone : ∀ d ∈ s.1.live, d.ptr = b.ptr ↔ d = b :=
      fun d hd => ⟨fun he => List.inj_on_of_nodup_map hs.once hd hb he, congrArg Live.ptr⟩
    ext q
    simp only [SoundArena.blocks, Set.mem_ofPred_eq, List.mem_map, Set.mem_sdiff,
      Set.mem_singleton_iff, (List.Nodup.of_map _ hs.once).mem_erase_iff]
    constructor
    · rintro ⟨d, ⟨hne, hd⟩, rfl⟩
      exact ⟨⟨d, hd, rfl⟩, mt (hone d hd).mp hne⟩
    · rintro ⟨⟨d, hd, rfl⟩, hne⟩
      exact ⟨d, ⟨mt (hone d hd).mpr hne, hd⟩, rfl⟩
  · next hfind =>
    have hnone := List.find?_eq_none.mp hfind c hc
    simp [hcp] at hnone

/-- The heap of the kernel, as its callers see it. -/
def kernelHeap : Allocator SoundArena Nat 0 where
  allocated := SoundArena.blocks
  allocate := request
  deallocate := release
  fresh s n h := (request_fresh s n h).1
  allocated_allocate s n h := (request_fresh s n h).2
  allocated_of_null := request_null
  allocated_deallocate := release_blocks

end rpi_wifi.kernel_alloc
