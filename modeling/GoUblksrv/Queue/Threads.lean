import GoUblksrv.Lib.Machine
import GoUblksrv.Queue.Memory

/-!
The threads of one queue as a step machine: the queue thread in
`demo_null_io_handler_fn` and `ublksrv_process_io`, one completion goroutine of
`onRequestAsync` for each delivered request, and the driver, which completes the
submitted commands in any order and with any result. `io_uring_submit_and_wait_timeout`
sleeps, in `waitCqe`, only when the kernel has consumed every SQE.

`ublksrv_queue_io_cmd` takes and fills its SQE in one step. The kernel does not take
`q->lock`, but no goroutine is at that step while it consumes the SQ (`Quiescent.filling`), as
long as the counter does not drift.

A completion goroutine stays in the list after it has ended. The fields `queued`
and `subs` of a goroutine, and `served`, `batch`, `dropped`, `getDatas` and `log` of the
state, record the history, `batch` the deliveries since the last submission; no step reads
them.
-/

namespace GoUblksrv.Queue

inductive ThreadPc
  | processIo
  | lockCond
  | loadInflight
  | condWait
  | blocked
  | unlockCond
  | submit
  | waitCqe
  | reap
  | onRequest (tag rid : ℕ)
  | fetchAdd
  | getData (tag : ℕ) (pc : IoCmdPc)
  | exited
  deriving DecidableEq, Repr

structure Thread where
  pc : ThreadPc
  waitsForever : Bool
  timedOut : Bool
  reapped : ℕ
  deriving DecidableEq, Repr

inductive TaskPc
  | handling
  | failMark
  | failCmd (pc : IoCmdPc)
  | copyOut
  | finalRes
  | mark (res : Int32)
  | cmd (pc : IoCmdPc)
  | putMsg
  | ended
  deriving DecidableEq, Repr

structure Task where
  rid : ℕ
  tag : ℕ
  opType : Int32
  failed : Bool
  pc : TaskPc
  queued : List IoCmdOp
  subs : ℕ
  deriving DecidableEq, Repr

inductive Event
  | queue (tag : ℕ) (rid : Option ℕ) (op : IoCmdOp) (res : Option Int32)
  | deliver (tag rid : ℕ)
  | complete (tag : ℕ)
  | readDesc (tag rid : ℕ)
  | writeBuf (tag rid : ℕ)
  | discardPages
  | writeFd (fd : ℤ)
  | exit
  deriving DecidableEq, Repr

structure State where
  mem : Memory
  thread : Thread
  driver : List Sqe
  tasks : List Task
  served : ℕ
  batch : ℕ
  dropped : ℕ
  getDatas : ℕ
  log : List Event

inductive Act
  | thread
  | spurious
  | submit (n : ℕ)
  | waitCqe (timedOut : Bool)
  | reap (i : ℕ) (res : Int32) (iod : IoDesc)
  | reapEnd
  | onRequest (registered : Bool)
  | task (i : ℕ) (failed : Bool)
  deriving DecidableEq, Repr

def Act.fails : Act → Bool
  | .task _ failed => failed
  | _ => false

def Act.drifts : Act → Bool
  | .reap _ res _ => res == ublkIoResNeedGetData
  | a => a.fails

variable (s : State)

def State.goto (pc : ThreadPc) : State := { s with thread := { s.thread with pc := pc } }

/-- The command that this step of `ublksrv_queue_io_cmd` puts into the SQ. -/
def queuedOp (q : Memory) (tag : ℕ) : IoCmdPc → Option IoCmdOp
  | .fill => if q.ring.sq.length < q.ring.sqEntries then neededOp (q.ios tag).flags else none
  | _ => none

def queueEvents (q : Memory) (tag : ℕ) (rid : Option ℕ) (pc : IoCmdPc) : List Event :=
  ((queuedOp q tag pc).map fun op => Event.queue tag rid op (prepSqe q tag op).cmd.result).toList

/-- The start of `ublksrv_handle_cqe`: an abort, or any CQE after one, stops the queue. -/
def stopUnlessFetch (q : Memory) (tag : ℕ) (res : Int32) : Memory :=
  if res ≠ ublkIoResAbort ∧ q.stopping = false then q
  else { setFlags q tag { (q.ios tag).flags with needFetchRq := false } with stopping := true }

section

variable (q : Memory) (tag : ℕ) (res : Int32)

@[simp] theorem stopUnlessFetch_ring : (stopUnlessFetch q tag res).ring = q.ring := by
  unfold stopUnlessFetch
  split_ifs <;> rfl

@[simp] theorem stopUnlessFetch_lock : (stopUnlessFetch q tag res).lock = q.lock := by
  unfold stopUnlessFetch
  split_ifs <;> rfl

@[simp] theorem stopUnlessFetch_condMutex : (stopUnlessFetch q tag res).condMutex = q.condMutex := by
  unfold stopUnlessFetch
  split_ifs <;> rfl

@[simp] theorem stopUnlessFetch_cond : (stopUnlessFetch q tag res).cond = q.cond := by
  unfold stopUnlessFetch
  split_ifs <;> rfl

@[simp] theorem stopUnlessFetch_tgtIoInflight :
    (stopUnlessFetch q tag res).tgtIoInflight = q.tgtIoInflight := by
  unfold stopUnlessFetch
  split_ifs <;> rfl

theorem stopUnlessFetch_stopping :
    (stopUnlessFetch q tag res).stopping = (q.stopping || res == ublkIoResAbort) := by
  unfold stopUnlessFetch
  split_ifs with h
  · simp [h.1, h.2]
  · cases hs : q.stopping
    · simpa [hs] using h
    · rfl

theorem stopUnlessFetch_flags (i : ℕ) :
    ((stopUnlessFetch q tag res).ios i).flags = (q.ios i).flags ∨
      i = tag ∧ ((stopUnlessFetch q tag res).ios i).flags =
        { (q.ios i).flags with needFetchRq := false } := by
  unfold stopUnlessFetch
  split_ifs
  · exact .inl rfl
  · by_cases hi : i = tag
    · subst hi
      exact .inr ⟨rfl, setFlags_flags_self _ _ _⟩
    · exact .inl (setFlags_flags_ne _ _ _ hi)

end

def ublksrvHandleCqe (cqe : Cqe) (iod : IoDesc) : State :=
  let tag := (userDataToTag cqe.userData).toNat
  if isTargetIo cqe.userData then s
  else
    let q := stopUnlessFetch s.mem tag cqe.res
    if cqe.res = ublkIoResOk then
      -- the driver wrote the descriptor before it posted the CQE
      { s.goto (.onRequest tag s.served) with
        mem := { q with ioCmdBuf := Function.update q.ioCmdBuf tag iod }
        served := s.served + 1
        batch := s.batch + 1
        log := s.log ++ [.deliver tag s.served] }
    else if cqe.res = ublkIoResNeedGetData then
      { s.goto (.getData tag .lock) with
        mem := setFlags q tag { (q.ios tag).flags with needGetData := true, ioFree := true }
        log := s.log ++ [.complete tag] }
    else
      { s with
        mem := setFlags q tag { ioFree := true }
        log := s.log ++ [.complete tag] }

/-- `ublksrv_kill_eventfd`, `ublksrv_queue_idle_enter` and `ublksrv_queue_idle_exit`: the new IDLE bit
and what is done to descriptors and pages. -/
def settle : Bool × List Event :=
  let q := s.mem
  if q.stopping then (q.idle, if 0 ≤ q.efd then [.writeFd q.efd] else [])
  else if s.thread.timedOut && s.thread.reapped == 0 && q.ring.sq.isEmpty then
    (true, if q.idle then [] else [.discardPages])
  else (false, [])

/-- The end of `ublksrv_process_io`, after the CQ was found empty. -/
def afterReap : State :=
  { s.goto .processIo with mem := { s.mem with idle := (settle s).1 }, log := s.log ++ (settle s).2 }

theorem settle_events {e : Event} (h : e ∈ (settle s).2) : e = .discardPages ∨ ∃ fd, e = .writeFd fd := by
  simp only [settle] at h
  split_ifs at h <;> simp_all

theorem settle_discardPages (h : .discardPages ∈ (settle s).2) : s.thread.reapped = 0 := by
  simp only [settle] at h
  split_ifs at h with h1 h2 h3 h4 <;> simp_all

def threadStep : ThreadPc → Option State
  | .processIo =>
    if ublksrvQueueIsDone s.mem then some { s.goto .exited with log := s.log ++ [.exit] }
    else some { s with thread := ⟨.lockCond, s.mem.idle, false, 0⟩ }
  | .lockCond =>
    if s.mem.condMutex then none
    else some { s.goto .loadInflight with mem := { s.mem with condMutex := true } }
  | .loadInflight => some (s.goto (if 0 < s.mem.tgtIoInflight then .condWait else .unlockCond))
  | .condWait => some { s.goto .blocked with mem := { s.mem with condMutex := false, cond := .asleep } }
  | .blocked =>
    if s.mem.cond = .woken ∧ s.mem.condMutex = false then
      some { s.goto .loadInflight with mem := { s.mem with condMutex := true, cond := .none } }
    else none
  | .unlockCond => some { s.goto .submit with mem := { s.mem with condMutex := false } }
  | .fetchAdd =>
    some { s.goto .reap with
      mem := { s.mem with tgtIoInflight := wrapInt (s.mem.tgtIoInflight + 1) } }
  | .getData _ (.ret _) => some (s.goto .reap)
  | .getData tag pc =>
    (queueIoCmdStep s.mem tag pc).map fun r =>
      { s.goto (.getData tag r.2) with
        mem := r.1
        getDatas := if pc = .sub then s.getDatas + 1 else s.getDatas
        log := s.log ++ queueEvents s.mem tag none pc }
  | _ => none

/-- One step of the completion goroutine `t` of `onRequestAsync`; `failed` is what it finds in
`msgObj.Result == -1` after it received from `msgObj.Complete`. -/
def taskStep (q : Memory) (t : Task) (failed : Bool) : Option (Memory × Task × List Event) :=
  match t.pc with
  | .handling =>
    some (q, { t with failed := failed, pc := if failed then .failMark else .copyOut }, [])
  | .failMark => some (ublksrvMarkIoDone q t.tag eio, { t with pc := .failCmd .lock }, [])
  -- no return after the completion with -EIO: the goroutine goes on to the copy
  | .failCmd (.ret _) => some (q, { t with pc := .copyOut }, [])
  | .copyOut =>
    some (q, { t with pc := .finalRes },
      if t.opType = longhornCmdTypeRead then [.writeBuf t.tag t.rid] else [])
  | .finalRes =>
    if t.opType = longhornCmdTypeUnmap then some (q, { t with pc := .mark 0 }, [])
    else
      some (q, { t with pc := .mark (getNrSectors (q.ioCmdBuf t.tag) <<< 9).toInt32 },
        [.readDesc t.tag t.rid])
  | .mark res => some (ublksrvMarkIoDone q t.tag res, { t with pc := .cmd .lock }, [])
  | .cmd (.ret _) => some (q, { t with pc := .putMsg }, [])
  | .putMsg => some (q, { t with pc := .ended }, [])
  | .ended => none
  | .failCmd pc => inCall pc .failCmd
  | .cmd pc => inCall pc .cmd
where
  inCall (pc : IoCmdPc) (k : IoCmdPc → TaskPc) : Option (Memory × Task × List Event) :=
    (queueIoCmdStep q t.tag pc).map fun r =>
      (r.1,
        { t with
          pc := k r.2
          queued := t.queued ++ (queuedOp q t.tag pc).toList
          subs := if pc = .sub then t.subs + 1 else t.subs },
        queueEvents q t.tag (some t.rid) pc)

def step : Act → Option State
  | .thread => threadStep s s.thread.pc
  | .spurious =>
    if s.thread.pc = .blocked ∧ s.mem.cond = .asleep then
      some { s with mem := { s.mem with cond := .woken } }
    else none
  | .submit n =>
    if s.thread.pc = .submit ∧ n ≤ s.mem.ring.sq.length then
      some { s.goto (if n = s.mem.ring.sq.length then .waitCqe else .reap) with
        mem := { s.mem with ring := { s.mem.ring with sq := s.mem.ring.sq.drop n } }
        driver := s.driver ++ s.mem.ring.sq.take n
        batch := 0 }
    else none
  | .waitCqe timedOut =>
    if s.thread.pc = .waitCqe ∧ (timedOut → s.thread.waitsForever = false) then
      some { s with thread := { s.thread with pc := .reap, timedOut := timedOut } }
    else none
  | .reap i res iod =>
    if s.thread.pc = .reap then
      s.driver[i]?.map fun c =>
        ublksrvHandleCqe
          { s with
            driver := s.driver.eraseIdx i
            thread := { s.thread with reapped := s.thread.reapped + 1 } }
          ⟨c.userData, res⟩ iod
    else none
  | .reapEnd => if s.thread.pc = .reap then some (afterReap s) else none
  | .onRequest registered =>
    match s.thread.pc with
    | .onRequest tag rid =>
      if registered then
        some { s.goto .fetchAdd with
          tasks := s.tasks ++
            [⟨rid, tag, reqToLonghornCmdType (s.mem.ioCmdBuf tag), false, .handling, [], 0⟩] }
      else some { s.goto .fetchAdd with dropped := s.dropped + 1 }
    | _ => none
  | .task i failed =>
    s.tasks[i]?.bind fun t => (taskStep s.mem t failed).map fun r =>
      { s with mem := r.1, tasks := s.tasks.set i r.2.1, log := s.log ++ r.2.2 }

def start (q : Memory) : State where
  mem := q
  thread := ⟨.processIo, false, false, 0⟩
  driver := []
  tasks := []
  served := 0
  batch := 0
  dropped := 0
  getDatas := 0
  log := q.ring.sq.map fun e => .queue e.cmd.tag none .fetchReq e.cmd.result

def machine (info : DevInfo) : Machine State Act where
  init s := ∃ qId buf mem q, ublksrvQueueInit (ublksrvDevInit info) qId buf mem = some q ∧ s = start q
  step := step

def zeroed : Memory where
  qId := 0
  qDepth := 0
  ioCmdBuf := fun _ => ⟨0, 0, 0, 0⟩
  tgtIoInflight := 0
  lock := false
  condMutex := false
  cond := .none
  stopping := false
  idle := false
  ioctlOp := false
  userCopy := false
  efd := 0
  ring := ⟨[], 0⟩
  ios := fun _ => ⟨{}, 0, 0⟩

/-- A run of queue 0 of a device, from its initialisation in zeroed memory. -/
def runFrom (info : DevInfo) (as : List Act) : Option State :=
  (ublksrvQueueInit (ublksrvDevInit info) 0 (fun _ => 0) zeroed).bind
    fun q => (machine info).run (start q) as

theorem runFrom_reach {info : DevInfo} {as : List Act} {C : State → Act → Prop} {s : State}
    (hc : ∀ a ∈ as, ∀ t, C t a) (h : runFrom info as = some s) : (machine info).Reach C s := by
  obtain ⟨q, hq, hr⟩ := Option.bind_eq_some_iff.mp h
  exact .of_run (.init ⟨0, _, _, q, hq, rfl⟩) hc hr

def runFromIf (c : State → Act → Bool) (info : DevInfo) (as : List Act) : Option State :=
  (ublksrvQueueInit (ublksrvDevInit info) 0 (fun _ => 0) zeroed).bind
    fun q => (machine info).runIf c (start q) as

theorem runFromIf_reach {info : DevInfo} {as : List Act} {c : State → Act → Bool}
    {C : State → Act → Prop} {s : State} (hc : ∀ t a, c t a = true → C t a)
    (h : runFromIf c info as = some s) : (machine info).Reach C s := by
  obtain ⟨q, hq, hr⟩ := Option.bind_eq_some_iff.mp h
  exact .of_runIf (.init ⟨0, _, _, q, hq, rfl⟩) hc hr

end GoUblksrv.Queue
