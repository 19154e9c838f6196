-- The laws of joining a network. The result that `waitjoin` takes belongs to
-- the join when nothing was left in `joinstatus` before, and a disconnect
-- outlives the join when it does not fall between the success of the join and
-- the store of the joining task.
import RpiWifi.Runs
import RpiWifi.Joins

namespace rpi_wifi.ether4330

open runs

variable {T : Type} [DecidableEq T] {s u : JoinState T}

/-- The task has written its "join" variable and has not returned. -/
def JoinPc.waits : JoinPc → Bool
  | .outside | .sending => false
  | _ => true

/-! ## The result of a join -/

/-- A join is sent while no result waits, and a waiter still finds the result that
it was woken up for. -/
def NothingLeft (s : JoinState T) : JoinAct T → Prop
  | .event _ => True
  | .run t =>
    (s.pc t = .sending → s.link.joinstatus = 0) ∧ (s.pc t = .reading → s.link.joinstatus ≠ 0)

instance (s : JoinState T) (a : JoinAct T) : Decidable (NothingLeft s a) :=
  match a with
  | .event _ => inferInstanceAs (Decidable True)
  | .run _ => inferInstanceAs (Decidable (_ ∧ _))

/-- A result that waits, and each that a task has read, is of an event since the
join of the task. -/
structure Fresh (s : JoinState T) : Prop where
  word : ∀ t, (s.pc t).waits = true → s.link.joinstatus ≠ 0 →
    .joined (s.link.joinstatus - 1) ∈ s.since t
  read : ∀ t n, s.pc t = .clearing n ∨ s.pc t = .deciding n → .joined (n - 1) ∈ s.since t

omit [DecidableEq T] in
theorem fresh_start (link : Link) : Fresh (joinStart T link) := by
  constructor
  · intro t ht
    cases ht
  · rintro t n (h | h) <;> cases h

/-- A task goes on and leaves the result where it is, or clears it. -/
theorem fresh_goto {t : T} {pc' : JoinPc} (h : Fresh s)
    (hpc : u.pc = Function.update s.pc t pc') (hsince : u.since = s.since)
    (hword : u.link.joinstatus = s.link.joinstatus ∨ u.link.joinstatus = 0)
    (hwaits : pc'.waits = true → (s.pc t).waits = true)
    (hread : ∀ n, pc' = .clearing n ∨ pc' = .deciding n → .joined (n - 1) ∈ s.since t) :
    Fresh u := by
  constructor
  · intro v hv hne
    have hsame : u.link.joinstatus = s.link.joinstatus := hword.resolve_right hne
    rw [hsame] at hne ⊢
    rw [hsince]
    apply h.word v _ hne
    by_cases hvt : v = t
    · subst hvt
      rw [hpc, Function.update_self] at hv
      exact hwaits hv
    · rwa [hpc, Function.update_of_ne hvt] at hv
  · intro v n hv
    rw [hsince]
    by_cases hvt : v = t
    · subst hvt
      rw [hpc, Function.update_self] at hv
      exact hread n hv
    · rw [hpc, Function.update_of_ne hvt] at hv
      exact h.read v n hv

/-- The write of a "join" variable starts a history with no result in it. -/
theorem fresh_send {t : T} (h : Fresh s) (hempty : s.link.joinstatus = 0) :
    Fresh ({ s with since := Function.update s.since t [] }.goto t .sent) := by
  constructor
  · intro v _ hne
    exact absurd hempty hne
  · intro v n hv
    dsimp only [JoinState.goto] at hv ⊢
    by_cases hvt : v = t
    · subst hvt
      rw [Function.update_self] at hv
      rcases hv with hv | hv <;> cases hv
    · rw [Function.update_of_ne hvt] at hv ⊢
      exact h.read v n hv

omit [DecidableEq T] in
theorem fresh_event (h : Fresh s) (p : Packet) :
    Fresh { s with
      link := bcmevent s.link p
      since := fun t => s.since t ++ (happened p).toList } := by
  have hwords := (bcmevent_words s.link p).2
  constructor
  · intro t ht hne
    dsimp only at ht hne ⊢
    cases hp : happened p with
    | none =>
      rw [hp] at hwords
      rw [hwords.1] at hne ⊢
      exact List.mem_append_left _ (h.word t ht hne)
    | some e =>
      rw [hp] at hwords
      cases e with
      | joined st =>
        rw [hwords.1]
        simp
      | disconnected =>
        rw [hwords.1] at hne ⊢
        exact List.mem_append_left _ (h.word t ht hne)
  · intro t n ht
    exact List.mem_append_left _ (h.read t n ht)

theorem fresh_step {a : JoinAct T} (h : Fresh s) (hok : NothingLeft s a)
    (hs : joinStep s a = some u) : Fresh u := by
  cases a with
  | event p =>
    cases hs
    exact fresh_event h p
  | run t =>
    cases hs
    obtain ⟨hsend, hread⟩ := hok
    unfold runJoin
    cases hpc : s.pc t with
    | outside => exact fresh_goto h rfl rfl (.inl rfl) (by simp [JoinPc.waits]) (by simp)
    | sending => exact fresh_send h (hsend hpc)
    | sent => exact fresh_goto h rfl rfl (.inl rfl) (by simp [hpc, JoinPc.waits]) (by simp)
    | connecting => exact fresh_goto h rfl rfl (.inl rfl) (by simp [hpc, JoinPc.waits]) (by simp)
    | testing =>
      refine fresh_goto h rfl rfl (.inl rfl) (by simp [hpc, JoinPc.waits]) ?_
      intro n hn
      split at hn
      · rcases hn with hn | hn <;> cases hn
      · rcases hn with hn | hn <;> cases hn
    | reading =>
      refine fresh_goto h rfl rfl (.inl rfl) (by simp [hpc, JoinPc.waits]) ?_
      rintro n (hn | hn)
      · cases hn
        exact h.word t (by rw [hpc]; rfl) (hread hpc)
      · cases hn
    | clearing n =>
      refine fresh_goto h rfl rfl (.inr rfl) (by simp [hpc, JoinPc.waits]) ?_
      rintro m (hm | hm)
      · cases hm
      · cases hm
        exact h.read t n (.inl hpc)
    | deciding n => exact fresh_goto h rfl rfl (.inl rfl) (by simp [JoinPc.waits]) (by simp)

/-- In every run in which a join is sent while `joinstatus` is clear, and a waiter
finds the result that it was woken up for, the value that `waitjoin` returns is
the status of an event since the join was sent. -/
theorem a_join_takes_a_fresh_result (link : Link) (acts : List (JoinAct T)) (s : JoinState T)
    (t : T) (n : BitVec 32) (hok : Allowed joinStep NothingLeft (joinStart T link) acts)
    (h : exec joinStep (joinStart T link) acts = some s) (hn : s.pc t = .deciding n) :
    .joined (n - 1) ∈ s.since t :=
  (exec_inv Fresh (fun _ _ _ hi ho hs => fresh_step hi ho hs) (fresh_start link) hok h).read t n
    (.inr hn)

/-- A packet with the flags, the number and the status of an event. -/
def eventPacket (flags event status : Byte) : Packet :=
  List.replicate 24 0 ++ [0, 0, 0, flags, 0, 0, 0, event, 0, 0, 0, status] ++ List.replicate 34 0

/-- The link of a driver that is attached and not connected. -/
def idleLink : Link := ⟨true, 0, .Disconnected, [], false, [], []⟩

/-- A join, up to the write of its variable. -/
def sendJoin : List (JoinAct Unit) := List.replicate 2 (.run ())

/-- From there to the return of `waitjoin`. -/
def awaitJoin : List (JoinAct Unit) := List.replicate 5 (.run ())

/-- The set-ssid event of a join comes while the task waits. -/
def freshRun : List (JoinAct Unit) := sendJoin ++ [.event (eventPacket 0 0 0)] ++ awaitJoin

theorem freshRun_takes_its_result :
    Allowed joinStep NothingLeft (joinStart Unit idleLink) freshRun ∧
      ∃ s, exec joinStep (joinStart Unit idleLink) freshRun = some s ∧ s.pc () = .deciding 1 ∧
        .joined 0 ∈ s.since () := by
  have hok : Allowed joinStep NothingLeft (joinStart Unit idleLink) freshRun := by decide +kernel
  have hend : (exec joinStep (joinStart Unit idleLink) freshRun).map (fun s => s.pc ()) =
      some (.deciding 1) := by
    decide +kernel
  obtain ⟨s, hs, hpc⟩ := Option.map_eq_some_iff.mp hend
  exact ⟨hok, s, hs, hpc, a_join_takes_a_fresh_result idleLink freshRun s () 1 hok hs hpc⟩

/-- A roam fails while no join is pending, and a join comes after it. -/
def leftOverRun : List (JoinAct Unit) := [.event (eventPacket 0 19 5)] ++ sendJoin ++ awaitJoin

/-- The join takes the result of the roam. Nothing has happened since it was sent. -/
theorem a_join_takes_a_result_left_over :
    ∃ s, exec joinStep (joinStart Unit idleLink) leftOverRun = some s ∧ s.pc () = .deciding 6 ∧
      s.since () = [] ∧ .joined (6 - 1) ∉ s.since () := by
  have hend : (exec joinStep (joinStart Unit idleLink) leftOverRun).map
      (fun s => (s.pc (), s.since ())) = some (.deciding 6, []) := by
    decide +kernel
  obtain ⟨s, hs, he⟩ := Option.map_eq_some_iff.mp hend
  simp only [Prod.mk.injEq] at he
  obtain ⟨hpc, hsince⟩ := he
  refine ⟨s, hs, hpc, hsince, ?_⟩
  rw [hsince]
  exact List.not_mem_nil

/-! ## A disconnect after the success of a join -/

/-- A disconnect comes after a successful set-ssid event. -/
def LostIn (l : List Happening) : Prop :=
  ∃ l₁ l₂, l = l₁ ++ .joined 0 :: l₂ ∧ .disconnected ∈ l₂

/-- Where a call has returned and no other call has written `status` since, a
disconnect after the success of its join has left `Disconnected`. -/
def NoLostDisconnect (s : JoinState T) : Prop :=
  ∀ t, s.pc t = .outside → s.writer = some t → LostIn (s.since t) →
    s.link.status = .Disconnected

/-- A disconnect comes on an attached driver, and no join stands between its
success and its return. -/
def NotInBetween (s : JoinState T) : JoinAct T → Prop
  | .event p => happened p = some .disconnected →
      s.link.edev = true ∧ ∀ t, (s.pc t).waits = true → .joined 0 ∉ s.since t
  | .run _ => True

instance [Fintype T] (s : JoinState T) (a : JoinAct T) : Decidable (NotInBetween s a) :=
  match a with
  | .event _ => inferInstanceAs (Decidable (_ → _))
  | .run _ => inferInstanceAs (Decidable True)

/-- No join that waits has lost a disconnect, and after a call that has returned
`status` holds its result or the disconnect. -/
structure Settled (s : JoinState T) : Prop where
  waiting : ∀ t, (s.pc t).waits = true → ¬ LostIn (s.since t)
  returned : ∀ t, s.pc t = .outside → s.writer = some t →
    s.link.status ≠ .Connecting ∧ (LostIn (s.since t) → s.link.status = .Disconnected)

theorem not_lostIn_nil : ¬ LostIn [] := by
  rintro ⟨l₁, l₂, h, -⟩
  simp at h

/-- What a new event adds to the history of a join. -/
theorem lostIn_snoc (l : List Happening) (e : Happening) :
    LostIn (l ++ [e]) ↔ LostIn l ∨ e = .disconnected ∧ .joined 0 ∈ l := by
  constructor
  · rintro ⟨l₁, l₂, h, hm⟩
    rcases List.eq_nil_or_concat l₂ with rfl | ⟨m, x, rfl⟩
    · cases hm
    · rw [List.concat_eq_append, ← List.cons_append, ← List.append_assoc] at h
      obtain ⟨rfl, hx⟩ := List.append_inj' h rfl
      obtain rfl : e = x := by simpa using hx
      have hm' : Happening.disconnected ∈ m ∨ Happening.disconnected = e := by simpa using hm
      rcases hm' with hm | hm
      · exact .inl ⟨l₁, m, rfl, hm⟩
      · exact .inr ⟨hm.symm, by simp⟩
  · rintro (⟨l₁, l₂, rfl, hm⟩ | ⟨rfl, hm⟩)
    · exact ⟨l₁, l₂ ++ [e], by simp, List.mem_append_left _ hm⟩
    · obtain ⟨l₁, l₂, rfl⟩ := List.append_of_mem hm
      exact ⟨l₁, l₂ ++ [.disconnected], by simp, by simp⟩

omit [DecidableEq T] in
theorem settled_start (link : Link) : Settled (joinStart T link) := by
  constructor
  · intro t ht
    cases ht
  · intro t _ hw
    cases hw

/-- A disconnect on an attached driver that is not connecting leaves `Disconnected`. -/
theorem linkdown_settles {l : Link} (he : l.edev = true) (hc : l.status ≠ .Connecting) :
    (linkdown l).status = .Disconnected := by
  unfold linkdown
  split
  · rename_i h
    rcases h with h | h
    · rw [he] at h
      cases h
    · cases hs : l.status with
      | Disconnected => rfl
      | Connecting => exact absurd hs hc
      | Connected => exact absurd hs h
  · rfl

omit [DecidableEq T] in
theorem settled_event {p : Packet} (h : Settled s) (hok : NotInBetween s (.event p)) :
    Settled { s with
      link := bcmevent s.link p
      since := fun t => s.since t ++ (happened p).toList } := by
  have hwords := (bcmevent_words s.link p).2
  cases hp : happened p with
  | none =>
    rw [hp] at hwords
    simp only [Option.toList_none, List.append_nil]
    constructor
    · exact h.waiting
    · intro t ht hw
      dsimp only
      rw [hwords.2]
      exact h.returned t ht hw
  | some e =>
    rw [hp] at hwords
    simp only [Option.toList_some]
    cases e with
    | joined st =>
      have hsame : ∀ t, LostIn (s.since t ++ [.joined st]) ↔ LostIn (s.since t) := by
        intro t
        rw [lostIn_snoc]
        simp
      constructor
      · intro t ht
        dsimp only
        rw [hsame]
        exact h.waiting t ht
      · intro t ht hw
        dsimp only
        rw [hsame, hwords.2]
        exact h.returned t ht hw
    | disconnected =>
      obtain ⟨hedev, hlate⟩ := hok hp
      constructor
      · intro t ht
        dsimp only
        rw [lostIn_snoc]
        rintro (hlost | ⟨-, hwon⟩)
        · exact h.waiting t ht hlost
        · exact hlate t ht hwon
      · intro t ht hw
        have hdown := linkdown_settles hedev (h.returned t ht hw).1
        dsimp only
        rw [hwords.2, hdown]
        exact ⟨by decide, fun _ => rfl⟩

/-- A task goes on without a write to `status`. -/
theorem settled_goto {t : T} {pc' : JoinPc} (h : Settled s)
    (hpc : u.pc = Function.update s.pc t pc') (hsince : u.since = s.since)
    (hstatus : u.link.status = s.link.status) (hwriter : u.writer = s.writer)
    (hwaits : pc'.waits = true → (s.pc t).waits = true) (hin : pc' ≠ .outside) : Settled u := by
  constructor
  · intro v hv
    rw [hsince]
    by_cases hvt : v = t
    · subst hvt
      rw [hpc, Function.update_self] at hv
      exact h.waiting v (hwaits hv)
    · rw [hpc, Function.update_of_ne hvt] at hv
      exact h.waiting v hv
  · intro v hv hw
    rw [hsince, hstatus]
    rw [hwriter] at hw
    by_cases hvt : v = t
    · subst hvt
      rw [hpc, Function.update_self] at hv
      exact absurd hv hin
    · rw [hpc, Function.update_of_ne hvt] at hv
      exact h.returned v hv hw

theorem settled_send {t : T} (h : Settled s) :
    Settled ({ s with since := Function.update s.since t [] }.goto t .sent) := by
  constructor
  · intro v hv
    dsimp only [JoinState.goto] at hv ⊢
    by_cases hvt : v = t
    · subst hvt
      rw [Function.update_self]
      exact not_lostIn_nil
    · rw [Function.update_of_ne hvt] at hv ⊢
      exact h.waiting v hv
  · intro v hv hw
    dsimp only [JoinState.goto] at hv ⊢
    by_cases hvt : v = t
    · subst hvt
      rw [Function.update_self] at hv
      cases hv
    · rw [Function.update_of_ne hvt] at hv ⊢
      exact h.returned v hv hw

/-- A write to `status`: the last one of the call is not `Connecting`. -/
theorem settled_setStatus {t : T} {status : Status} {pc' : JoinPc} (h : Settled s)
    (ht : (s.pc t).waits = true) (hlast : pc' = .outside → status ≠ .Connecting) :
    Settled ((s.setStatus t status).goto t pc') := by
  constructor
  · intro v hv
    dsimp only [JoinState.goto, JoinState.setStatus] at hv ⊢
    by_cases hvt : v = t
    · subst hvt
      exact h.waiting v ht
    · rw [Function.update_of_ne hvt] at hv
      exact h.waiting v hv
  · intro v hv hw
    obtain rfl : t = v := Option.some.inj hw
    dsimp only [JoinState.goto, JoinState.setStatus] at hv ⊢
    rw [Function.update_self] at hv
    exact ⟨hlast hv, fun hlost => absurd hlost (h.waiting t ht)⟩

theorem settled_step {a : JoinAct T} (h : Settled s) (hok : NotInBetween s a)
    (hs : joinStep s a = some u) : Settled u := by
  cases a with
  | event p =>
    cases hs
    exact settled_event h hok
  | run t =>
    cases hs
    unfold runJoin
    cases hpc : s.pc t with
    | outside => exact settled_goto h rfl rfl rfl rfl (by simp [JoinPc.waits]) (by simp)
    | sending => exact settled_send h
    | sent => exact settled_goto h rfl rfl rfl rfl (by simp [hpc, JoinPc.waits]) (by simp)
    | connecting => exact settled_setStatus h (by rw [hpc]; rfl) (by simp)
    | testing =>
      refine settled_goto h rfl rfl rfl rfl (by simp [hpc, JoinPc.waits]) ?_
      split
      · simp
      · simp
    | reading => exact settled_goto h rfl rfl rfl rfl (by simp [hpc, JoinPc.waits]) (by simp)
    | clearing n => exact settled_goto h rfl rfl rfl rfl (by simp [hpc, JoinPc.waits]) (by simp)
    | deciding n =>
      refine settled_setStatus h (by rw [hpc]; rfl) ?_
      intro _
      split
      · decide
      · decide

/-- In every run in which no disconnect falls between the success of a join and the
return of the call, a disconnect after the success is not lost. -/
theorem a_disconnect_outlives_the_join (link : Link) (acts : List (JoinAct T)) (s : JoinState T)
    (hok : Allowed joinStep NotInBetween (joinStart T link) acts)
    (h : exec joinStep (joinStart T link) acts = some s) : NoLostDisconnect s := by
  have hsettled := exec_inv Settled (fun _ _ _ hi ho hs => settled_step hi ho hs)
    (settled_start link) hok h
  intro t ht hw hlost
  exact (hsettled.returned t ht hw).2 hlost

/-- A join that succeeds and returns, and then a deauth event. -/
def disconnectedRun : List (JoinAct Unit) :=
  freshRun ++ [.run (), .event (eventPacket 0 5 0)]

theorem disconnectedRun_is_not_lost :
    Allowed joinStep NotInBetween (joinStart Unit idleLink) disconnectedRun ∧
      ∃ s, exec joinStep (joinStart Unit idleLink) disconnectedRun = some s ∧
        s.pc () = .outside ∧ s.since () = [.joined 0, .disconnected] ∧
        s.link.status = .Disconnected := by
  have hok : Allowed joinStep NotInBetween (joinStart Unit idleLink) disconnectedRun := by
    decide +kernel
  have hend : (exec joinStep (joinStart Unit idleLink) disconnectedRun).map
      (fun s => (s.pc (), s.writer, s.since ())) =
        some (.outside, some (), [.joined 0, .disconnected]) := by
    decide +kernel
  obtain ⟨s, hs, he⟩ := Option.map_eq_some_iff.mp hend
  simp only [Prod.mk.injEq] at he
  obtain ⟨hpc, hw, hsince⟩ := he
  refine ⟨hok, s, hs, hpc, hsince, ?_⟩
  apply a_disconnect_outlives_the_join idleLink disconnectedRun s hok hs () hpc hw
  rw [hsince]
  exact ⟨[], [.disconnected], rfl, by simp⟩

/-- A deauth event comes after the set-ssid event, while the task has not woken up. -/
def overtakenRun : List (JoinAct Unit) :=
  sendJoin ++ [.event (eventPacket 0 0 0), .event (eventPacket 0 5 0)] ++ awaitJoin ++ [.run ()]

/-- The stale success overwrites the disconnect. -/
theorem a_disconnect_is_overtaken :
    ∃ s, exec joinStep (joinStart Unit idleLink) overtakenRun = some s ∧
      s.pc () = .outside ∧ s.writer = some () ∧ s.since () = [.joined 0, .disconnected] ∧
      s.link.status = .Connected ∧ ¬ NoLostDisconnect s := by
  have hend : (exec joinStep (joinStart Unit idleLink) overtakenRun).map
      (fun s => (s.pc (), s.writer, s.since (), s.link.status)) =
        some (.outside, some (), [.joined 0, .disconnected], .Connected) := by
    decide +kernel
  obtain ⟨s, hs, he⟩ := Option.map_eq_some_iff.mp hend
  simp only [Prod.mk.injEq] at he
  obtain ⟨hpc, hw, hsince, hstatus⟩ := he
  refine ⟨s, hs, hpc, hw, hsince, hstatus, ?_⟩
  intro hno
  have hlost : LostIn (s.since ()) := by
    rw [hsince]
    exact ⟨[], [.disconnected], rfl, by simp⟩
  have := hno () hpc hw hlost
  rw [hstatus] at this
  cases this

end rpi_wifi.ether4330
