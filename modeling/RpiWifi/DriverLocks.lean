-- The locks of the driver, in `plan9_ether4330.c` and `bcm4343.c`. Each function is written
-- down as what it does with locks, in the order of the source and with every way out of it.
-- The five locks have an order, and so no tasks that use the driver block each other.
import RpiWifi.LockOrder

namespace rpi_wifi.driver_locks

open runs lock_order

inductive Lock where
  | alock | cmdlock | tlock | pktlock | sdiolock
  deriving DecidableEq

instance : Fintype Lock where
  elems := {.alock, .cmdlock, .tlock, .pktlock, .sdiolock}
  complete l := by cases l <;> decide

/-! ## The bus -/

/-- A function, by what it does with locks. Conditions are left open. -/
abbrev Code := Stmt Lock

/-- `emmccmd` takes no lock. -/
def sdiocmd_locked : Code := .call .ret

def sdiocmd : Code :=
  .call (block [.acquire .sdiolock, sdiocmd_locked, .release .sdiolock, .ret])

def trysdiocmd : Code := .call (block [sdiocmd, .ret])

def sdiord : Code := .call (block [sdiocmd, when .ret, .ret])

def sdiowr : Code := .call (whileDo .skip (block [sdiocmd, when .ret]))

def sdiorwext : Code :=
  .call (whileDo .skip (block [.acquire .sdiolock, sdiocmd_locked, .release .sdiolock]))

def sdioset : Code := .call (block [sdiord, sdiowr])

def sdioinit : Code :=
  .call (block [sdiocmd, trysdiocmd, whileDo .skip (block [when .ret, trysdiocmd]),
    sdiocmd, sdiocmd, sdioset, sdioset, sdiowr, sdiowr, sdiowr, sdiowr, sdioset, sdiowr,
    whileDo sdiord .skip])

def cfgw : Code := .call sdiowr

def cfgr : Code := .call (block [sdiord, .ret])

def cfgreadl : Code := .call (block [sdiorwext, .ret])

def cfgwritel : Code := .call sdiorwext

def sbwindow : Code := .call (block [cfgw, cfgw, cfgw])

def sbrw : Code :=
  .call (.choice (block [when sdiorwext, whileDo .skip sdiowr])
    (block [when sdiorwext, whileDo .skip sdiord]))

def sbmem : Code := .call (whileDo .skip (block [sbwindow, sbrw]))

/-! ## The cores and the firmware -/

def sbdisable : Code :=
  .call (block [sbwindow, cfgreadl, when (block [cfgwritel, cfgreadl, .ret]),
    cfgwritel, cfgreadl, cfgwritel, whileDo cfgreadl .skip, cfgwritel, cfgreadl])

def sbreset : Code :=
  .call (block [sbdisable, sbwindow, when (block [cfgreadl, cfgreadl]),
    whileDo cfgreadl cfgwritel, cfgwritel, cfgreadl, when (block [cfgreadl, cfgreadl])])

def corescan : Code := .call (block [when .ret, sbmem, whileDo .skip (when .ret)])

def ramscan : Code :=
  .call (block [
    when (block [sbwindow, cfgreadl, whileDo .skip (block [cfgwritel, cfgreadl]), .ret]),
    when .ret, sbreset, sbwindow, cfgreadl, whileDo .skip (block [cfgwritel, cfgreadl]),
    when (block [cfgwritel, cfgwritel])])

def sbinit : Code :=
  .call (block [sbwindow, cfgreadl, when .ret, cfgreadl, corescan,
    .choice sbreset sbdisable, sbreset, ramscan, cfgw, when cfgr, cfgw, whileDo cfgr .skip,
    cfgw, when cfgr, cfgw, sbwindow, cfgwritel, cfgwritel, when .ret, cfgwritel, cfgreadl,
    when (block [cfgreadl, when cfgreadl, cfgwritel, when cfgreadl])])

def sbenable : Code :=
  .call (block [cfgw, cfgw, whileDo cfgr (when (block [cfgr, .ret])), cfgr, cfgr, cfgw,
    when cfgr, sbwindow, cfgwritel, cfgwritel, sdioset,
    whileDo sdiord (when (block [sdiord, .ret])), sdiowr])

def upload : Code :=
  .call (block [when .ret, when .ret, when (when .ret),
    .loop (block [when .brk, sbmem, when .brk]),
    when (.loop (block [when (when .brk), sbmem, when .ret, when .brk])), .ret])

def fwload : Code :=
  .call (block [whileDo .skip .skip, cfgw, whileDo cfgr .skip, sbmem, upload, upload, sbmem,
    .choice (block [sbwindow, cfgwritel, when sbmem, sbreset]) sbreset])

/-! ## Packets and commands -/

def packetrw : Code := .call (whileDo .skip sdiorwext)

def wlreadpkt : Code :=
  .call (block [.acquire .pktlock,
    .loop (block [packetrw, when .brk,
      when (block [cfgw, whileDo cfgr .skip, whileDo cfgr .skip, .cont]),
      when packetrw, .brk]),
    .release .pktlock, .ret])

/-- `txwinlock` turns the interrupts off and is not a mutex. -/
def txstart : Code :=
  .call (block [.acquire .tlock,
    .loop (block [when .brk, when .brk, when .brk,
      .acquire .pktlock, packetrw, .release .pktlock]),
    .release .tlock])

def intwait : Code :=
  .call (.loop (block [sbwindow, sdiord, when .cont, cfgreadl, cfgwritel,
    when (block [cfgreadl, cfgwritel]), when .brk]))

/-- The `sleep` lasts until `rproc` has put the answer into `rsp`. -/
def wlcmd : Code :=
  .call (block [when .ret, .acquire .cmdlock, .acquire .pktlock, packetrw, .release .pktlock,
    .wait, .release .cmdlock])

def wlsetvar : Code := .call wlcmd

def wlgetvar : Code := .call wlcmd

def wlsetint : Code := .call wlsetvar

def wlcmdint : Code := .call wlcmd

def wlsetcountry : Code := .call (block [when .ret, wlsetvar])

def wlscanstart : Code := .call (block [wlcmdint, wlsetvar])

def wlinit : Code :=
  .call (block [wlgetvar, wlsetint, .choice wlcmdint wlcmdint, wlsetint, wlsetint, wlsetint,
    when (block [wlsetint, wlsetint, wlsetvar]), wlsetvar,
    wlcmdint, wlcmdint, wlcmdint, wlcmdint, wlgetvar, wlsetint,
    wlcmdint, wlcmdint, wlcmdint])

/-! ## The tasks of the driver -/

def linkdown : Code := .call (block [when .ret, whileDo .skip (when .cont)])

/-- The handler does not call back into the driver. -/
def callevhndlr : Code := .call .skip

def bcmevent : Code :=
  .call (block [when .ret,
    oneOf [.skip, block [linkdown, callevhndlr], callevhndlr]])

/-- The cases of the `switch` are the four kinds of packets. -/
def rproc : Code :=
  .call (.loop (block [when txstart, wlreadpkt, when (block [intwait, .cont]),
    oneOf [when .cont, when bcmevent, when .cont, .skip]]))

/-- The `tsleep` ends by itself. -/
def lproc : Code := .call (.loop (when (when wlscanstart)))

/-! ## What is called from outside -/

def etherbcmattach : Code :=
  .call (block [.acquire .alock, when (block [sdioinit, sbinit]), fwload, sbenable, wlinit,
    .release .alock])

def etherbcmtransmit : Code := .call (block [when .ret, txstart])

def send_frame : Code := .call (block [when .ret, when .ret, etherbcmtransmit, .ret])

def setauth : Code :=
  .call (block [wlsetvar, .choice (block [wlsetint, wlsetint, wlsetint, wlsetint])
    (block [wlsetint, wlsetint, wlsetint, wlsetint])])

def setcrypt : Code := .call (block [when .ret, wlsetint, .ret])

def wlwepkey : Code := .call wlsetvar

def wlwpakey : Code := .call (block [when .ret, wlsetvar])

/-- The `sleep` lasts until `rproc` has set `joinstatus`. -/
def waitjoin : Code := .call (block [.wait, .ret])

def wljoin : Code := .call (block [wlsetvar, waitjoin])

def etherbcmscan : Code := .call .skip

def etherbcmctl : Code :=
  .call (block [when .ret,
    oneOf [block [setauth, when wljoin],
      when .ret,
      block [setcrypt, .choice (when wljoin) .ret],
      wljoin,
      block [when .ret, when .ret, when .ret, setcrypt, when setauth, when wljoin],
      block [when .ret, wlsetint, wlwepkey],
      block [when .ret, when .ret, wlwpakey],
      etherbcmscan, wlsetcountry, .skip],
    .ret])

def etherbcmshutdown : Code := .call sdiowr

inductive Role where
  | client | lproc | rproc
  deriving DecidableEq

/-- A client calls what it likes, as often as it likes. -/
def Role.program : Role → Code
  | .client => whileDo .skip (oneOf [etherbcmattach, etherbcmctl, send_frame, etherbcmshutdown])
  | .lproc => driver_locks.lproc
  | .rproc => driver_locks.rproc

/-! ## The order of the locks -/

/-- An answer is waited for under the command lock, and the others are taken for no longer
than a packet needs. -/
def order : Order Lock where
  rank
    | .alock => 0
    | .cmdlock => 1
    | .tlock => 3
    | .pktlock => 4
    | .sdiolock => 5
  wait := 2

/-- The task that answers takes only locks that rank above a wait. -/
def Role.floor : Role → Nat
  | .client | .lproc => 0
  | .rproc => 3

theorem program_safe (r : Role) :
    Safe order r.floor r.program (ways order r.floor []) ∅ := by
  have hcheck : check order r.floor r.program ⟨none, none, none⟩ ∅ = some (some ∅) := by
    cases r <;> decide +kernel
  apply safe_of_check hcheck
  refine ⟨?_, nofun, nofun, nofun⟩
  rintro _ ⟨⟩
  rfl

/-! ## No deadlock -/

variable {T : Type*} [DecidableEq T]

/-- Any tasks, each in its role, in any order of steps. No task stands at a mutex that it
holds, every call ends with the mutexes that it began with, and the tasks never wait for each
other in a circle, where a command waits for `rproc`. -/
theorem the_driver_does_not_deadlock (role : T → Role) {acts : List (T × Bool)}
    {s : State Lock T} (h : exec step (begin fun t => (role t).program) acts = some s) :
    (∀ t l, standsAt (s.control t) = some l → s.holder l ≠ some t) ∧
      (∀ t, (∀ E k, s.control t = .back E :: k → s.held t = E) ∧
        (∀ k, s.control t = .run .ret :: k → entered k = some (s.held t)) ∧
        (s.control t = [] → s.held t = ∅)) ∧
      ∀ t, ¬ Relation.TransGen (WaitsFor (fun u => role u = .rproc) s) t t := by
  have hordered : Ordered order (fun t => (role t).floor) s :=
    ordered_exec (fun t => program_safe (role t)) h
  refine ⟨fun _ _ hl => hordered.not_again hl, fun t => hordered.gives_back t, ?_⟩
  apply hordered.acyclic
  intro t ht
  have hfloor : (role t).floor = 3 := by rw [ht]; rfl
  rw [hfloor]
  decide

/-- The choices on the way from a client to the `mutex_acquire` of `txstart`. -/
def to_txstart : List Bool :=
  List.replicate 4 false ++ true :: List.replicate 4 false ++ true :: List.replicate 15 false

/-- One client takes `tlock`, and the other comes to it. -/
def senders : List (Bool × Bool) :=
  (to_txstart ++ [false]).map (false, ·) ++ to_txstart.map (true, ·)

theorem the_senders_run :
    (exec step (begin fun _ : Bool => Role.client.program) senders).isSome = true := by
  decide +kernel

theorem a_sender_waits_for_the_other :
    let s := (exec step (begin fun _ : Bool => Role.client.program) senders).get the_senders_run
    WaitsFor (fun _ => Role.client = .rproc) s true false ∧
      ∀ t, ¬ Relation.TransGen (WaitsFor (fun _ => Role.client = .rproc) s) t t := by
  refine ⟨.inl ⟨.tlock, by decide +kernel, by decide +kernel⟩, ?_⟩
  exact (the_driver_does_not_deadlock (fun _ => .client) (Option.some_get the_senders_run).symm).2.2

end rpi_wifi.driver_locks
