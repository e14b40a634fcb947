import GoUblksrv.Lib.Machine
import Mathlib.Algebra.GroupWithZero.Nat
import Mathlib.Data.Int.Notation
import Mathlib.Data.List.Basic
import Mathlib.Logic.Function.Basic

/-!
`Start` and `Delete` of the devices of one process as a step machine: the callers, the
goroutine that each `startupC` starts, the queue threads of its daemon, and the goroutine
of each `Delete`. They share the registry, the fields of a device, the ids that exist in
the driver and the unbuffered channel `Done`.

A `UblkDevice` is a number. A session is one call of `Start` with its goroutine; it stays
in the list after it has ended. The driver's part is an `Answer` to each command; a stop
of an id, by `STOP_DEV` or from outside, ends the loops of the queue threads that serve
it. A second `close` of `daemonDone` panics, and the run stops there.
-/

namespace GoUblksrv.Device

abbrev defNrHwQueues : ℤ := 1
abbrev nrMessages : ℕ := 512
abbrev msgChanCap : ℕ := 4096
abbrev initDoneCap : ℕ := 1

structure DevData where
  devId : ℤ
  nrHwQueues : ℕ
  deriving DecidableEq, Repr

structure CtrlDevInfo where
  devId : ℤ
  nrHwQueues : ℕ
  deriving DecidableEq, Repr

/-- The composite literal of `startupC` leaves `dev_id` at its zero value. -/
def startupData (queues : ℤ) : DevData where
  devId := 0
  nrHwQueues := (if queues ≤ 0 then defNrHwQueues else queues).toNat % 2 ^ 16

def ublksrvCtrlInit (data : DevData) : CtrlDevInfo := ⟨data.devId, data.nrHwQueues⟩

/-- How a call turned out; `ADD_DEV` also writes the id and the number of queues back. -/
structure Answer where
  ok : Bool
  devId : ℤ
  nrHwQueues : ℕ
  deriving DecidableEq, Repr

inductive CallerPc
  | fill (i : ℕ)
  | mkdir
  | recv
  | returned (err : Bool)
  deriving DecidableEq, Repr

inductive StartupPc
  | unborn
  | ctrlInit
  | sendInitErr
  | addDev
  | sendAddErr
  | initParams
  | sendParamsErr
  | setId
  | register
  | sendNil
  | getAffinity
  | infoArray
  | devInit
  | createThreads
  | startDev
  | join
  | unregister
  | closeDone
  | ended
  deriving DecidableEq, Repr

/-- A queue thread; `failed` is the return of one whose `ublksrv_queue_init` failed. -/
inductive ThreadPc
  | init
  | running
  | notify
  | exited
  | failed
  deriving DecidableEq, Repr

def ThreadPc.done : ThreadPc → Bool
  | .exited | .failed => true
  | _ => false

/-- Which of the four calls have failed. -/
structure Failures where
  mkdir : Bool
  ctrlInit : Bool
  addDev : Bool
  initParams : Bool
  deriving DecidableEq, Repr

structure Session where
  dev : ℕ
  caller : CallerPc
  pc : StartupPc
  initDone : List Bool
  info : CtrlDevInfo
  infoArray : Bool
  threads : List ThreadPc
  stopped : Bool
  fails : Failures
  pushed : ℕ
  sent : ℕ
  registered : Bool
  daemon : Bool
  deriving DecidableEq, Repr

inductive DevDelPc
  | ctrlInit
  | getInfo
  | stop
  | del
  | ended
  deriving DecidableEq, Repr

inductive DeletePc
  | waiting
  | remove
  | returned (err : Bool)
  deriving DecidableEq, Repr

/-- A call of `Delete`, the goroutine with `cmd_dev_del`, and whose notification it received. -/
structure Deletion where
  dev : ℕ
  id : ℤ
  caller : DeletePc
  pc : DevDelPc
  got : Option ℕ
  deriving DecidableEq, Repr

structure Dev where
  id : ℤ
  msgChan : ℕ
  inUse : ℕ
  daemonDone : Bool
  deriving DecidableEq, Repr

/-- A call of `onRequestAsync`: the device whose daemon serves the queue, and `devices[devID]`. -/
structure Route where
  dev : ℕ
  entry : Option ℕ
  deriving DecidableEq, Repr

structure State where
  devices : ℤ → Option ℕ
  devs : ℕ → Dev
  ids : ℤ → Bool
  sessions : List Session
  deletes : List Deletion
  routed : List Route

inductive Act
  | start (d : ℕ)
  | caller (k : ℕ) (ok : Bool)
  | startup (k : ℕ) (ans : Answer)
  | thread (k j : ℕ) (ok : Bool)
  | request (k j : ℕ)
  | takeMsg (d : ℕ)
  | putMsg (d : ℕ)
  | delete (d : ℕ)
  | devDel (m : ℕ) (ok : Bool)
  | handshake (m k j : ℕ)
  | remove (m : ℕ) (ok : Bool)
  | removed (id : ℤ)

variable (s : State)

def State.setSession (k : ℕ) (σ : Session) : State := { s with sessions := s.sessions.set k σ }

def State.setDev (d : ℕ) (r : Dev) : State := { s with devs := Function.update s.devs d r }

def State.setDelete (m : ℕ) (x : Deletion) : State := { s with deletes := s.deletes.set m x }

def registerDevice (id : ℤ) (d : ℕ) : State := { s with devices := Function.update s.devices id (some d) }

def unregisterDevice (id : ℤ) : State := { s with devices := Function.update s.devices id none }

/-- `-1` asks the driver for a free id, any other id has to be free. -/
def adds (ids : ℤ → Bool) (asked got : ℤ) : Bool :=
  !ids got && (if asked = -1 then decide (0 ≤ got) else decide (0 ≤ asked) && got == asked)

def Session.new (d : ℕ) : Session where
  dev := d
  caller := .fill 0
  pc := .unborn
  initDone := []
  info := ⟨-1, 0⟩
  infoArray := false
  threads := []
  stopped := false
  fails := ⟨false, false, false, false⟩
  pushed := 0
  sent := 0
  registered := false
  daemon := false

/-- `Start`, and `startupC` without its goroutine. -/
def callerStep (k : ℕ) (σ : Session) (ok : Bool) : Option State :=
  match σ.caller with
  | .fill i =>
    let d := s.devs σ.dev
    if d.msgChan < msgChanCap then
      some ((s.setDev σ.dev { d with msgChan := d.msgChan + 1 }).setSession k
        { σ with
          caller := if i + 1 < nrMessages then .fill (i + 1) else .mkdir
          pushed := σ.pushed + 1 })
    else none
  | .mkdir =>
    some (s.setSession k
      (if ok then { σ with caller := .recv, pc := .ctrlInit }
      else { σ with caller := .returned true, fails := { σ.fails with mkdir := true } }))
  | .recv =>
    match σ.initDone with
    | [] => none
    | err :: rest => some (s.setSession k { σ with caller := .returned err, initDone := rest })
  | .returned _ => none

def Session.send (σ : Session) (err : Bool) (pc : StartupPc) : Option Session :=
  if σ.initDone.length < initDoneCap then
    some { σ with initDone := σ.initDone ++ [err], sent := σ.sent + 1, pc := pc }
  else none

/-- The goroutine of `startupC`, with `ublksrv_start_daemon` from `getAffinity` to `join`. -/
def startupStep (queues : ℕ → ℤ) (k : ℕ) (σ : Session) (ans : Answer) : Option State :=
  match σ.pc with
  | .unborn => none
  | .ctrlInit =>
    some (s.setSession k
      (if ans.ok then { σ with info := ublksrvCtrlInit (startupData (queues σ.dev)), pc := .addDev }
      else { σ with fails := { σ.fails with ctrlInit := true }, pc := .sendInitErr }))
  | .sendInitErr => (σ.send true .ended).map (s.setSession k)
  | .addDev =>
    if ans.ok then
      if adds s.ids σ.info.devId ans.devId then
        some { s.setSession k
            { σ with info := ⟨ans.devId, min σ.info.nrHwQueues ans.nrHwQueues⟩, pc := .initParams } with
          ids := Function.update s.ids ans.devId true }
      else none
    else some (s.setSession k { σ with fails := { σ.fails with addDev := true }, pc := .sendAddErr })
  | .sendAddErr => (σ.send true .initParams).map (s.setSession k)
  | .initParams =>
    some (s.setSession k
      (if ans.ok then { σ with pc := .setId }
      else { σ with fails := { σ.fails with initParams := true }, pc := .sendParamsErr }))
  | .sendParamsErr => (σ.send true .setId).map (s.setSession k)
  | .setId =>
    some ((s.setDev σ.dev { s.devs σ.dev with id := σ.info.devId }).setSession k { σ with pc := .register })
  | .register =>
    some ((registerDevice s (s.devs σ.dev).id σ.dev).setSession k
      { σ with registered := true, pc := .sendNil })
  | .sendNil => (σ.send false .getAffinity).map (s.setSession k)
  | .getAffinity =>
    some (s.setSession k { σ with daemon := true, pc := if ans.ok then .infoArray else .ended })
  | .infoArray =>
    some (s.setSession k { σ with infoArray := ans.ok, pc := if ans.ok then .devInit else .ended })
  | .devInit =>
    if ans.ok then
      if s.ids σ.info.devId then some (s.setSession k { σ with pc := .createThreads }) else none
    else some (s.setSession k { σ with infoArray := false, pc := .ended })
  | .createThreads =>
    some (s.setSession k
      (if σ.threads.length < σ.info.nrHwQueues then { σ with threads := σ.threads ++ [.init] }
      else { σ with pc := .startDev }))
  | .startDev =>
    some (s.setSession k
      (if ans.ok then { σ with pc := .join } else { σ with infoArray := false, pc := .ended }))
  | .join =>
    if σ.threads.all ThreadPc.done then
      some (s.setSession k { σ with infoArray := false, pc := .unregister })
    else none
  | .unregister =>
    some ((unregisterDevice s (s.devs σ.dev).id).setSession k { σ with pc := .closeDone })
  | .closeDone =>
    if (s.devs σ.dev).daemonDone then none
    else
      some ((s.setDev σ.dev { s.devs σ.dev with daemonDone := true }).setSession k { σ with pc := .ended })
  | .ended => none

/-- `demo_null_io_handler_fn` up to the send in `notifyShutdown`. -/
def threadStep (σ : Session) (j : ℕ) (ok : Bool) : Option Session :=
  match σ.threads[j]? with
  | some .init => some { σ with threads := σ.threads.set j (if ok then .running else .failed) }
  | some .running => if σ.stopped then some { σ with threads := σ.threads.set j .notify } else none
  | _ => none

def Session.stop (id : ℤ) (σ : Session) : Session :=
  if σ.info.devId = id ∧ σ.threads ≠ [] then { σ with stopped := true } else σ

def State.stopDev (id : ℤ) : State := { s with sessions := s.sessions.map (Session.stop id) }

def cmdDevDel (m : ℕ) (x : Deletion) (ok : Bool) : Option State :=
  match x.pc with
  | .ctrlInit => some (s.setDelete m { x with pc := if ok then .getInfo else .ended })
  | .getInfo =>
    if ok && !s.ids x.id then none
    else some (s.setDelete m { x with pc := if ok then .stop else .ended })
  | .stop =>
    some (if ok then (s.stopDev x.id).setDelete m { x with pc := .del }
      else s.setDelete m { x with pc := .ended })
  | .del =>
    some (if ok then
        { s.setDelete m { x with pc := .ended } with ids := Function.update s.ids x.id false }
      else s.setDelete m { x with pc := .ended })
  | .ended => none

def step (queues : ℕ → ℤ) : Act → Option State
  | .start d => some { s with sessions := s.sessions ++ [.new d] }
  | .caller k ok => s.sessions[k]?.bind fun σ => callerStep s k σ ok
  | .startup k ans => s.sessions[k]?.bind fun σ => startupStep s queues k σ ans
  | .thread k j ok => s.sessions[k]?.bind fun σ => (threadStep σ j ok).map (s.setSession k)
  | .request k j =>
    s.sessions[k]?.bind fun σ =>
      if σ.threads[j]? = some .running then
        some { s with routed := s.routed ++ [⟨σ.dev, s.devices σ.info.devId⟩] }
      else none
  | .takeMsg d =>
    let r := s.devs d
    if 0 < r.msgChan then
      some (s.setDev d { r with msgChan := r.msgChan - 1, inUse := r.inUse + 1 })
    else none
  | .putMsg d =>
    let r := s.devs d
    if 0 < r.inUse ∧ r.msgChan < msgChanCap then
      some (s.setDev d { r with msgChan := r.msgChan + 1, inUse := r.inUse - 1 })
    else none
  | .delete d =>
    some { s with deletes := s.deletes ++
      [{ dev := d, id := (s.devs d).id, caller := .waiting, pc := .ctrlInit, got := none }] }
  | .devDel m ok => s.deletes[m]?.bind fun x => cmdDevDel s m x ok
  | .handshake m k j =>
    s.deletes[m]?.bind fun x =>
      s.sessions[k]?.bind fun σ =>
        -- `Done` is unbuffered: the send and the receive are one step
        if x.caller = .waiting ∧ σ.threads[j]? = some .notify then
          some ((s.setSession k { σ with threads := σ.threads.set j .exited }).setDelete m
            { x with caller := .remove, got := some σ.dev })
        else none
  | .remove m ok =>
    s.deletes[m]?.bind fun x =>
      if x.caller = .remove then some (s.setDelete m { x with caller := .returned (!ok) }) else none
  | .removed id => some { s.stopDev id with ids := Function.update s.ids id false }

def boot (devices : ℤ → Option ℕ) (ids : ℤ → Bool) : State where
  devices := devices
  devs := fun _ => ⟨-1, 0, 0, false⟩
  ids := ids
  sessions := []
  deletes := []
  routed := []

def machine (queues : ℕ → ℤ) : Machine State Act where
  init s := ∃ devices ids, s = boot devices ids
  step s a := step s queues a

def runFrom (queues : ℕ → ℤ) (as : List Act) : Option State :=
  (machine queues).run (boot (fun _ => none) fun _ => false) as

theorem runFrom_reach {queues : ℕ → ℤ} {as : List Act} {C : State → Act → Prop} {s : State}
    (hc : ∀ a ∈ as, ∀ t, C t a) (h : runFrom queues as = some s) : (machine queues).Reach C s :=
  .of_run (.init ⟨_, _, rfl⟩) hc h

end GoUblksrv.Device
