import GoUblksrv.Lib.Machine
import GoUblksrv.Pool.Message
import Mathlib.Data.List.Basic
import Mathlib.Logic.Function.Basic

/-!
The Go side of one device as a step machine: the queue threads in `onRequestAsync`, the
dispatcher `handleRequests`, its handler goroutines and the completion goroutines, with
the `Request` objects that they pass through `msgChan`, `requests` and `Complete`.

A delivery may take any object of `msgChan` (Go takes the oldest). A commit carries only
its tag, so the driver ends with it the request that it delivered last on that tag,
whichever goroutine sent it, and can deliver on the tag again. Reads and writes are of at
most `max_io_buf_bytes`. A call of `ublksrv_complete_io` waits for nothing here: `q->lock` is
in `Queue`, where it is shown to come free as long as no handler call fails.

A completion goroutine stays in the list after it has ended, so that its index is the number
of its request; the fields of a goroutine from `iod` on record its history, and so do `rid`
of an object and `answers`; no step reads them.
-/

namespace GoUblksrv.Pool

abbrev typeRead : UInt32 := 0
abbrev typeWrite : UInt32 := 1
abbrev typePing : UInt32 := 6
abbrev typeUnmap : UInt32 := 7

abbrev blocks : ℕ := 512

abbrev rDataCap : ℕ := blocks * 1024

abbrev chanCap : ℕ := 4096

structure Slice where
  q : ℕ
  tag : ℕ
  len : ℕ
  deriving DecidableEq, Repr

structure Request where
  complete : ℕ
  seq : UInt32
  type : UInt32
  offset : Int64
  size : UInt32
  rData : ℕ → UInt8
  rLen : ℕ
  wData : Slice
  result : ℤ
  rid : ℕ

/-- What a handler method returned, and `p` after a read. -/
structure Reply where
  n : ℕ
  err : Bool
  p : ℕ → UInt8

/-- A call of `ublksrv_complete_io` for a request, and the tag's buffer at that moment. -/
structure Commit where
  res : Int32
  buf : ℕ → UInt8

inductive TaskPc
  | sendRequest
  | recvComplete
  | check
  | failComplete
  | copyOut
  | finalRes
  | complete (res : Int32)
  | putMsg
  | ended
  deriving DecidableEq, Repr

structure Task where
  q : ℕ
  tag : ℕ
  opType : Int32
  dataLen : ℕ
  obj : ℕ
  pc : TaskPc
  iod : IoDesc
  reply : Option Reply
  failed : Bool
  copied : Option (ℕ × (ℕ → UInt8))
  commits : List Commit

inductive Method
  | read
  | write
  | unmap
  | ping
  deriving DecidableEq, Repr

structure Handler where
  obj : ℕ
  method : Method
  sending : Bool
  deriving DecidableEq, Repr

structure State where
  objs : ℕ → Request
  msgChan : List ℕ
  requests : List ℕ
  dispatching : Option ℕ
  handlers : List Handler
  tasks : List Task
  iods : ℕ → ℕ → IoDesc
  bufs : ℕ → ℕ → ℕ → UInt8
  inFlight : ℕ → ℕ → Option ℕ
  answers : ℕ → Option Commit

inductive Act
  | deliver (q tag : ℕ) (iod : IoDesc) (buf : ℕ → UInt8) (i : ℕ)
  | dispatch
  | dispatchSend
  | handle (j : ℕ) (reply : Reply)
  | handlerSend (j : ℕ)
  | task (k : ℕ)

/-- The driver splits reads and writes at `max_io_buf_bytes`. -/
def issued (iod : IoDesc) : Bool :=
  !(ublksrvGetOp iod == ublkIoOpRead || ublksrvGetOp iod == ublkIoOpWrite) ||
    decide (iod.nrSectors.toNat ≤ defBufSize >>> 9)

variable (s : State)

def State.setObj (o : ℕ) (r : Request) : State := { s with objs := Function.update s.objs o r }

/-- The driver has the commit of its last request on the tag. -/
def State.tagFree (q tag : ℕ) : Bool := (s.inFlight q tag).isNone

/-- What `onRequestAsync` writes into the object that it took. -/
def load (r : Request) (q tag : ℕ) (iod : IoDesc) (rid : ℕ) : Request :=
  let opType := reqToLonghornCmdType iod
  let req := longhornBuildReq .little iod (.ofNat tag) opType
  { r with
    size := req.size
    seq := req.seq
    type := opType.toUInt32
    offset := req.offset.toInt64
    wData := if opType = longhornCmdTypeWrite then ⟨q, tag, iovLen iod⟩ else r.wData
    rid := rid }

def onRequestAsync (q tag : ℕ) (iod : IoDesc) (o i : ℕ) : State :=
  { s.setObj o (load (s.objs o) q tag iod s.tasks.length) with
    msgChan := s.msgChan.eraseIdx i
    tasks := s.tasks ++
      [{ q := q, tag := tag, opType := reqToLonghornCmdType iod, dataLen := iovLen iod, obj := o,
         pc := .sendRequest, iod := iod, reply := none, failed := false, copied := none, commits := [] }] }

def methodOf (type : UInt32) : Option Method :=
  if type = typeRead then some .read
  else if type = typeWrite then some .write
  else if type = typeUnmap then some .unmap
  else if type = typePing then some .ping
  else none

def argLen (r : Request) : Method → ℕ
  | .read => r.size.toNat
  | .write => r.wData.len
  | .unmap | .ping => 0

/-- `handleRead`, `handleWrite`, `handleUnmap` and `handlePing` up to the send on `Complete`. -/
def runMethod (r : Request) (m : Method) (reply : Reply) : Option Request :=
  let result := if reply.err then -1 else r.result
  match m with
  | .read =>
    -- a reslice beyond the capacity panics
    if r.size.toNat ≤ rDataCap ∧ reply.n ≤ argLen r .read then
      some { r with
        rLen := r.size.toNat
        rData := fun i => if i < r.size.toNat then reply.p i else r.rData i
        result := result }
    else none
  | .write => if reply.n ≤ argLen r .write then some { r with result := result } else none
  | .unmap => some { r with result := result }
  | .ping => some r

def copyOut (dst : ℕ → UInt8) (dstLen : ℕ) (r : Request) : ℕ → UInt8 :=
  fun i => if i < min dstLen r.rLen then r.rData i else dst i

def State.setTask (k : ℕ) (t : Task) : State := { s with tasks := s.tasks.set k t }

def Task.completeIo (t : Task) (res : Int32) (pc : TaskPc) : Task :=
  { t with pc := pc, commits := t.commits ++ [⟨res, s.bufs t.q t.tag⟩] }

/-- What the driver makes of a commit on the tag. -/
def State.answer (q tag : ℕ) (c : Commit) : State :=
  { s with
    inFlight := Function.update s.inFlight q (Function.update (s.inFlight q) tag none)
    answers := (s.inFlight q tag).elim s.answers fun k => Function.update s.answers k (some c) }

/-- A call of `ublksrv_complete_io` in the goroutine of request `k`. -/
def State.completeIo (k : ℕ) (t : Task) (res : Int32) (pc : TaskPc) : State :=
  (s.setTask k (t.completeIo s res pc)).answer t.q t.tag ⟨res, s.bufs t.q t.tag⟩

def taskStep (k : ℕ) (t : Task) : Option State :=
  match t.pc with
  | .sendRequest =>
    if s.requests.length < chanCap then
      some { s.setTask k { t with pc := .recvComplete } with requests := s.requests ++ [t.obj] }
    else none
  | .recvComplete =>
    if 0 < (s.objs t.obj).complete then
      some ((s.setTask k { t with pc := .check }).setObj t.obj
        { s.objs t.obj with complete := (s.objs t.obj).complete - 1 })
    else none
  | .check =>
    let failed := decide ((s.objs t.obj).result = -1)
    some (s.setTask k { t with failed := failed, pc := if failed then .failComplete else .copyOut })
  | .failComplete => some (s.completeIo k t eio .copyOut)
  | .copyOut =>
    if t.opType = longhornCmdTypeRead then
      let r := s.objs t.obj
      some
        { s.setTask k { t with pc := .finalRes, copied := some (min t.dataLen r.rLen, r.rData) } with
          bufs := Function.update s.bufs t.q
            (Function.update (s.bufs t.q) t.tag (copyOut (s.bufs t.q t.tag) t.dataLen r)) }
    else some (s.setTask k { t with pc := .finalRes })
  | .finalRes =>
    let res : Int32 :=
      if t.opType = longhornCmdTypeUnmap then 0
      else (getNrSectors (s.iods t.q t.tag) <<< 9).toInt32
    some (s.setTask k { t with pc := .complete res })
  | .complete res => some (s.completeIo k t res .putMsg)
  | .putMsg =>
    if s.msgChan.length < chanCap then
      some { s.setTask k { t with pc := .ended } with msgChan := s.msgChan ++ [t.obj] }
    else none
  | .ended => none

/-- The history field of the request that holds `o`. -/
def State.record (o : ℕ) (reply : Reply) : List Task :=
  s.tasks.modify (s.objs o).rid fun t => { t with reply := some reply }

/-- One round of the dispatcher; in the default branch it goes on to the send on `Complete`. -/
def handleRequests : Option State :=
  match s.dispatching, s.requests with
  | none, o :: rest =>
    match methodOf (s.objs o).type with
    | some m => some { s with requests := rest, handlers := s.handlers ++ [⟨o, m, false⟩] }
    | none => some { s with requests := rest, dispatching := some o }
  | _, _ => none

def step : Act → Option State
  | .deliver q tag iod buf i =>
    if issued iod && s.tagFree q tag then
      s.msgChan[i]?.map fun o =>
        { onRequestAsync s q tag iod o i with
          iods := Function.update s.iods q (Function.update (s.iods q) tag iod)
          bufs := Function.update s.bufs q (Function.update (s.bufs q) tag buf)
          inFlight := Function.update s.inFlight q (Function.update (s.inFlight q) tag (some s.tasks.length)) }
    else none
  | .dispatch => handleRequests s
  | .dispatchSend =>
    s.dispatching.bind fun o =>
      if (s.objs o).complete < 1 then
        some { s.setObj o { s.objs o with complete := (s.objs o).complete + 1 } with dispatching := none }
      else none
  | .handle j reply =>
    s.handlers[j]?.bind fun h =>
      if h.sending then none
      else (runMethod (s.objs h.obj) h.method reply).map fun r =>
        { s.setObj h.obj r with
          handlers := s.handlers.set j { h with sending := true }
          tasks := s.record h.obj reply }
  | .handlerSend j =>
    s.handlers[j]?.bind fun h =>
      if h.sending ∧ (s.objs h.obj).complete < 1 then
        some { s.setObj h.obj { s.objs h.obj with complete := (s.objs h.obj).complete + 1 } with
          handlers := s.handlers.eraseIdx j }
      else none
  | .task k => s.tasks[k]?.bind fun t => taskStep s k t

def newRequest (i : ℕ) : Request where
  complete := 0
  seq := .ofNat i
  type := 100
  offset := 0
  size := 0
  rData := fun _ => 0
  rLen := rDataCap
  wData := ⟨0, 0, 0⟩
  result := 0
  rid := 0

def start (iods : ℕ → ℕ → IoDesc) (bufs : ℕ → ℕ → ℕ → UInt8) : State where
  objs := newRequest
  msgChan := List.range 512
  requests := []
  dispatching := none
  handlers := []
  tasks := []
  iods := iods
  bufs := bufs
  inFlight := fun _ _ => none
  answers := fun _ => none

def machine : Machine State Act where
  init s := ∃ iods bufs, s = start iods bufs
  step := step

def runFrom (as : List Act) : Option State :=
  machine.run (start (fun _ _ => ⟨0, 0, 0, 0⟩) fun _ _ _ => 0) as

theorem runFrom_reach {as : List Act} {C : State → Act → Prop} {s : State}
    (hc : ∀ a ∈ as, ∀ t, C t a) (h : runFrom as = some s) : machine.Reach C s :=
  .of_run (.init ⟨_, _, rfl⟩) hc h

end GoUblksrv.Pool
