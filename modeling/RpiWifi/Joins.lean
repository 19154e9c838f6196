-- Joining a network: any number of tasks in `wljoin`, and the task `rproc`
-- that hands the events of the chip to `bcmevent`. The tasks and the events
-- meet in two words of the `Ctlr`: `joinstatus`, which an event sets and a
-- waiter clears, and `status`, which both write. Events come in any order and
-- between any two steps of a task.
import RpiWifi.Driver

namespace rpi_wifi.ether4330

/-! ## The machine -/

/-- Where a task stands in `wljoin` and `waitjoin`. -/
inductive JoinPc where
  | outside
  -- inside `wlsetvar`, before and after its packet is written
  | sending
  | sent
  | connecting
  -- the loop of `sleep`
  | testing
  | reading
  | clearing (n : BitVec 32)
  | deciding (n : BitVec 32)
  deriving DecidableEq

/-- What an event says about the join or the link. -/
inductive Happening where
  | joined (status : BitVec 32)
  | disconnected
  deriving DecidableEq

/-- The tasks and the words they share with the events. The fields from `since`
on are a history that the code does not keep: what has happened since the task
wrote its "join" variable, and the task whose call wrote `status` last. -/
structure JoinState (T : Type) where
  link : Link
  pc : T → JoinPc
  since : T → List Happening
  writer : Option T

inductive JoinAct (T : Type) where
  | event (p : Packet)
  | run (t : T)

/-- The event of a packet: set-ssid, a failed roam, deauth, disassoc or link down. -/
def happened (whole : Packet) : Option Happening :=
  if whole.length < ETHERHDRSIZE + 10 + 46 then none
  else
    let p := whole.drop (ETHERHDRSIZE + 10)
    let flags := nhgets (p.drop 2)
    let status := nhgetl (p.drop 8)
    match (nhgets (p.drop 6)).toNat with
    | 19 => if status = 0 then none else some (.joined status)
    | 0 => some (.joined status)
    | 5 => some .disconnected
    | 6 => some .disconnected
    | 16 => if flags &&& 1 ≠ 0 then none else some .disconnected
    | 12 => some .disconnected
    | _ => none

section

variable {T : Type} [DecidableEq T]

def JoinState.goto (s : JoinState T) (t : T) (pc : JoinPc) : JoinState T :=
  { s with pc := Function.update s.pc t pc }

/-- `ctl->status = status`, by the task `t`. -/
def JoinState.setStatus (s : JoinState T) (t : T) (status : Status) : JoinState T :=
  { s with link := { s.link with status }, writer := some t }

/-- A task runs on to the next place where it meets the shared words. -/
def runJoin (s : JoinState T) (t : T) : JoinState T :=
  match s.pc t with
  | .outside => s.goto t .sending
  | .sending => { s with since := Function.update s.since t [] }.goto t .sent
  | .sent => s.goto t .connecting
  | .connecting => (s.setStatus t .Connecting).goto t .testing
  | .testing => s.goto t (if s.link.joinstatus = 0 then .testing else .reading)
  | .reading => s.goto t (.clearing s.link.joinstatus)
  | .clearing n => { s with link := { s.link with joinstatus := 0 } }.goto t (.deciding n)
  | .deciding n =>
    -- `waitjoin` returns `n - 1`, and all values but 0 mean that the join failed.
    (s.setStatus t (if n - 1 = 0 then .Connected else .Disconnected)).goto t .outside

def joinStep (s : JoinState T) : JoinAct T → Option (JoinState T)
  | .event p =>
    some { s with
      link := bcmevent s.link p
      since := fun t => s.since t ++ (happened p).toList }
  | .run t => some (runJoin s t)

/-- No task is in `wljoin`. -/
def joinStart (T : Type) (link : Link) : JoinState T := ⟨link, fun _ => .outside, fun _ => [], none⟩

end

/-! ## What an event does to the shared words -/

/-- The event of the packet as a function of the two words. -/
theorem bcmevent_words (l : Link) (p : Packet) :
    (bcmevent l p).edev = l.edev ∧
      match happened p with
      | some (.joined st) => (bcmevent l p).joinstatus = 1 + st ∧ (bcmevent l p).status = l.status
      | some .disconnected =>
        (bcmevent l p).joinstatus = l.joinstatus ∧ (bcmevent l p).status = (linkdown l).status
      | none => (bcmevent l p).joinstatus = l.joinstatus ∧ (bcmevent l p).status = l.status := by
  have hdown : ∀ e, (callevhndlr (linkdown l) e).edev = l.edev ∧
      (callevhndlr (linkdown l) e).joinstatus = l.joinstatus ∧
      (callevhndlr (linkdown l) e).status = (linkdown l).status := by
    intro e
    unfold callevhndlr linkdown
    split <;> split <;> exact ⟨rfl, rfl, rfl⟩
  have hcall : ∀ e, (callevhndlr l e).edev = l.edev ∧
      (callevhndlr l e).joinstatus = l.joinstatus ∧ (callevhndlr l e).status = l.status := by
    intro e
    unfold callevhndlr
    split <;> exact ⟨rfl, rfl, rfl⟩
  unfold bcmevent happened
  by_cases hlen : p.length < ETHERHDRSIZE + 10 + 46
  · simp only [hlen, ↓reduceIte, and_self]
  · simp only [hlen, ↓reduceIte]
    generalize (nhgets ((p.drop (ETHERHDRSIZE + 10)).drop 6)).toNat = event
    generalize nhgets ((p.drop (ETHERHDRSIZE + 10)).drop 2) = flags
    split
    · split
      · exact ⟨rfl, rfl, rfl⟩
      · exact ⟨rfl, rfl, rfl⟩
    · exact ⟨rfl, rfl, rfl⟩
    · exact hdown _
    · exact hdown _
    · split
      · exact ⟨rfl, rfl, rfl⟩
      · exact hdown _
    · exact hdown _
    · exact hcall _
    · exact ⟨rfl, rfl, rfl⟩
    · -- Every other event leaves both words, and `happened` does not name it.
      refine ⟨rfl, ?_⟩
      split
      · rename_i heq
        split at heq <;> contradiction
      · rename_i heq
        split at heq <;> contradiction
      · exact ⟨rfl, rfl⟩

end rpi_wifi.ether4330
