import GoUblksrv.Header
import Mathlib.Algebra.Order.Ring.Int
import Mathlib.Data.Int.Init
import Mathlib.Data.Nat.Log
import Mathlib.Logic.Function.Basic

/-!
`struct _ublksrv_queue` and the functions of `ublkhelper.c` that read and write it:
`ublksrv_queue_io_cmd`, `ublksrv_mark_io_done` and `ublksrv_queue_init`.
-/

namespace GoUblksrv.Queue

structure IoFlags where
  needFetchRq : Bool := false
  needCommitRqComp : Bool := false
  ioFree : Bool := false
  needGetData : Bool := false
  deriving DecidableEq, Repr

/-- What `ublksrv_mark_io_done` leaves when no bit was set before it. -/
def IoFlags.done : IoFlags := { needCommitRqComp := true, ioFree := true }

structure UblkIo where
  flags : IoFlags
  result : UInt32
  bufAddr : UInt64
  deriving DecidableEq, Repr

/-- `struct ublksrv_io_cmd`; only a commit writes `result`. -/
structure IoCmd where
  qId : ℕ
  tag : ℕ
  result : Option Int32
  addr : UInt64
  deriving DecidableEq, Repr

structure Sqe where
  cmdOp : UInt32
  cmd : IoCmd
  userData : UInt64
  deriving DecidableEq, Repr

structure Cqe where
  userData : UInt64
  res : Int32
  deriving DecidableEq, Repr

/-- The prepared SQEs that the kernel has not consumed, and the size of the SQ. -/
structure Ring where
  sq : List Sqe
  sqEntries : ℕ
  deriving Repr

/-- `q->cond` as seen by its only waiter, the queue thread. -/
inductive Waiter
  | none
  | asleep
  | woken
  deriving DecidableEq, Repr

def Waiter.signal : Waiter → Waiter
  | .asleep => .woken
  | w => w

structure Memory where
  qId : ℕ
  qDepth : ℕ
  ioCmdBuf : ℕ → IoDesc
  tgtIoInflight : ℤ
  lock : Bool
  condMutex : Bool
  cond : Waiter
  stopping : Bool
  idle : Bool
  ioctlOp : Bool
  userCopy : Bool
  efd : ℤ
  ring : Ring
  ios : ℕ → UblkIo

variable (q : Memory) (tag : ℕ)

/-- `_Atomic int`: `atomic_fetch_add` and `atomic_fetch_sub` wrap silently. -/
def wrapInt (n : ℤ) : ℤ := n.bmod (2 ^ 32)

def setIo (io : UblkIo) : Memory := { q with ios := Function.update q.ios tag io }

def setFlags (f : IoFlags) : Memory := setIo q tag { q.ios tag with flags := f }

@[simp] theorem setFlags_flags_self (f : IoFlags) : ((setFlags q tag f).ios tag).flags = f := by
  simp [setFlags, setIo]

theorem setFlags_flags_ne (f : IoFlags) {i : ℕ} (h : i ≠ tag) :
    ((setFlags q tag f).ios i).flags = (q.ios i).flags := by
  simp [setFlags, setIo, h]

/-- The command that the NEED bits ask for, in the order in which they are tested. -/
def neededOp (f : IoFlags) : Option IoCmdOp :=
  if !f.ioFree then none
  else if f.needGetData then some .needGetData
  else if f.needCommitRqComp then some .commitAndFetchReq
  else if f.needFetchRq then some .fetchReq
  else none

def prepSqe (op : IoCmdOp) : Sqe where
  cmdOp := if q.ioctlOp then iowrIoCmd (iocNr op.code) else op.code
  cmd :=
    { qId := q.qId
      tag := tag
      result := if op = .commitAndFetchReq then some (q.ios tag).result.toInt32 else none
      addr := if q.userCopy then 0 else (q.ios tag).bufAddr }
  userData := buildUserData (.ofNat tag)
    (iocNr (if q.ioctlOp then iowrIoCmd (iocNr op.code) else op.code)) 0 0

/-- The part of `ublksrv_queue_io_cmd` from taking `q->lock` to `io->flags = 0`: an error is an
early return, and the queue is then as it was, its lock still taken. -/
def fillSqe : Except ℤ Memory :=
  match neededOp (q.ios tag).flags with
  | none => .error 0
  | some op =>
    if q.ring.sq.length < q.ring.sqEntries then
      .ok { setFlags q tag {} with ring := { q.ring with sq := q.ring.sq ++ [prepSqe q tag op] } }
    else .error (-1)

inductive IoCmdPc
  | lock
  | fill
  | sub
  | condLock
  | condSignal
  | condUnlock
  | unlock
  | ret (r : ℤ)
  deriving DecidableEq, Repr

/-- One step of a thread inside `ublksrv_queue_io_cmd(q, &q->ios[tag], tag)`. -/
def queueIoCmdStep : IoCmdPc → Option (Memory × IoCmdPc)
  | .lock => if q.lock then none else some ({ q with lock := true }, .fill)
  | .fill =>
    match fillSqe q tag with
    | .error r => some (q, .ret r)
    | .ok q' => some (q', .sub)
  | .sub =>
    some ({ q with tgtIoInflight := wrapInt (q.tgtIoInflight - 1) },
      if q.tgtIoInflight = 1 then .condLock else .unlock)
  | .condLock => if q.condMutex then none else some ({ q with condMutex := true }, .condSignal)
  | .condSignal => some ({ q with cond := q.cond.signal }, .condUnlock)
  | .condUnlock => some ({ q with condMutex := false }, .unlock)
  | .unlock => some ({ q with lock := false }, .ret 1)
  | .ret _ => none

/-- The whole call, run without interleaving; `none` when the thread blocks for ever. -/
def queueIoCmdRun (tag : ℕ) : ℕ → Memory → IoCmdPc → Option (ℤ × Memory)
  | _, q, .ret r => some (r, q)
  | 0, _, _ => none
  | n + 1, q, pc => (queueIoCmdStep q tag pc).bind fun s => queueIoCmdRun tag n s.1 s.2

def ublksrvQueueIoCmd : Option (ℤ × Memory) := queueIoCmdRun tag 8 q .lock

def ublksrvMarkIoDone (res : Int32) : Memory :=
  setIo q tag
    { q.ios tag with
      flags := { (q.ios tag).flags with needCommitRqComp := true, ioFree := true }
      result := res.toUInt32 }

@[simp] theorem markIoDone_flags_self (res : Int32) :
    ((ublksrvMarkIoDone q tag res).ios tag).flags =
      { (q.ios tag).flags with needCommitRqComp := true, ioFree := true } := by
  simp [ublksrvMarkIoDone, setIo]

theorem markIoDone_flags_ne (res : Int32) {i : ℕ} (h : i ≠ tag) :
    ((ublksrvMarkIoDone q tag res).ios i).flags = (q.ios i).flags := by
  simp [ublksrvMarkIoDone, setIo, h]

def ublksrvSubmitFetchCommands : Option Memory :=
  (List.range q.qDepth).foldlM (fun q i => (ublksrvQueueIoCmd q i).map Prod.snd) q

structure DevInfo where
  queueDepth : UInt16
  ioctlEncode : Bool
  userCopy : Bool
  needEventfd : Bool
  deriving DecidableEq, Repr

structure Dev where
  info : DevInfo
  tgtRingDepth : UInt32
  extraIos : UInt32
  cqDepth : ℤ
  deriving DecidableEq, Repr

/-- `ublksrv_dev_init` takes the structure from `calloc` and sets none of the depths. -/
def ublksrvDevInit (info : DevInfo) : Dev := ⟨info, 0, 0, 0⟩

structure Depths where
  ringDepth : ℤ
  cqDepth : ℤ
  nrIos : ℤ
  deriving DecidableEq, Repr

def ublksrvCalculateDepths (dev : Dev) : Depths :=
  let aioDepth : ℤ := if dev.info.needEventfd then 1 else 0
  let depth : ℤ := dev.info.queueDepth.toNat
  let tgtDepth : ℤ := wrapInt (dev.tgtRingDepth.toNat + aioDepth)
  let ringDepth := if depth > tgtDepth then depth else tgtDepth
  { ringDepth := ringDepth
    cqDepth := if dev.cqDepth ≠ 0 then dev.cqDepth else ringDepth
    nrIos := wrapInt (depth + dev.extraIos.toNat) }

/-- The number of SQ entries that `io_uring_setup` allocates for a ring of `n`. -/
def sqEntriesOf (n : ℕ) : ℕ := 2 ^ Nat.clog 2 n

/-- `ublksrv_queue_init` when every allocation and system call succeeds. `mem` is what `malloc`
returned, `buf` the io buffers; the fetch commands are queued before the counter, the locks
and the condition variable get their values. -/
def ublksrvQueueInit (dev : Dev) (qId : ℕ) (buf : ℕ → UInt64) (mem : Memory) : Option Memory :=
  let d := ublksrvCalculateDepths dev
  if d.nrIos > dev.info.queueDepth.toNat * 3 then none
  else
    let q : Memory :=
      { mem with
        qId := qId
        qDepth := dev.info.queueDepth.toNat
        stopping := false
        idle := false
        ioctlOp := dev.info.ioctlEncode
        userCopy := dev.info.userCopy
        ring := { sq := [], sqEntries := sqEntriesOf d.ringDepth.toNat }
        ios := fun i =>
          if (i : ℤ) < d.nrIos then
            { mem.ios i with
              flags := { needFetchRq := true, ioFree := true }
              bufAddr := if i < dev.info.queueDepth.toNat then buf i else 0 }
          else mem.ios i }
    (ublksrvSubmitFetchCommands q).map fun q =>
      { q with tgtIoInflight := 0, condMutex := false, cond := .none, lock := false }

def ublksrvQueueIsDone : Bool := q.stopping && q.ring.sq.isEmpty

end GoUblksrv.Queue
