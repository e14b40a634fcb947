import GoUblksrv.Queue.Fetch

/-!
`ublksrv_queue_init` in the memory that `malloc` returned: the fetch loop locks, unlocks and
signals words that `pthread_mutex_init` and `pthread_cond_init` write only after it.
-/

namespace GoUblksrv.Queue

/-- The contents of a `pthread_mutex_t`; the size is that of x86-64. -/
abbrev PthreadMutex := BitVec 320

abbrev PthreadCond := BitVec 384

/-- What the library makes of contents that no init has written: nothing is promised of it, a
call may return or, `none`, not. -/
structure Pthread where
  mutexLock : PthreadMutex → Option PthreadMutex
  mutexUnlock : PthreadMutex → Option PthreadMutex
  condSignal : PthreadCond → Option PthreadCond

structure Words where
  lock : PthreadMutex
  condMutex : PthreadMutex
  cond : PthreadCond
  deriving DecidableEq

/-- The structure before the end of its init: `words` stand where `queue` has its mutexes and its
condition variable. -/
structure Heap where
  queue : Memory
  words : Words

/-- One step of `ublksrv_queue_io_cmd(q, &q->ios[tag], tag)`, as `queueIoCmdStep`. -/
def Heap.queueIoCmdStep (P : Pthread) (h : Heap) (tag : ℕ) : IoCmdPc → Option (Heap × IoCmdPc)
  | .lock => (P.mutexLock h.words.lock).map fun m => ({ h with words := { h.words with lock := m } }, .fill)
  | .fill =>
    match fillSqe h.queue tag with
    | .error r => some (h, .ret r)
    | .ok q => some ({ h with queue := q }, .sub)
  | .sub =>
    some ({ h with queue := { h.queue with tgtIoInflight := wrapInt (h.queue.tgtIoInflight - 1) } },
      if h.queue.tgtIoInflight = 1 then .condLock else .unlock)
  | .condLock =>
    (P.mutexLock h.words.condMutex).map fun m =>
      ({ h with words := { h.words with condMutex := m } }, .condSignal)
  | .condSignal =>
    (P.condSignal h.words.cond).map fun c => ({ h with words := { h.words with cond := c } }, .condUnlock)
  | .condUnlock =>
    (P.mutexUnlock h.words.condMutex).map fun m => ({ h with words := { h.words with condMutex := m } }, .unlock)
  | .unlock => (P.mutexUnlock h.words.lock).map fun m => ({ h with words := { h.words with lock := m } }, .ret 1)
  | .ret _ => none

/-- The whole call; its value, which `ublksrv_submit_fetch_commands` ignores, is left out. -/
def Heap.queueIoCmdRun (P : Pthread) (tag : ℕ) : ℕ → Heap → IoCmdPc → Option Heap
  | _, h, .ret _ => some h
  | 0, _, _ => none
  | n + 1, h, pc => (h.queueIoCmdStep P tag pc).bind fun s => Heap.queueIoCmdRun P tag n s.1 s.2

/-- The first `n` rounds of `ublksrv_submit_fetch_commands`. -/
def Heap.fetchLoop (P : Pthread) (h : Heap) : ℕ → Option Heap
  | 0 => some h
  | i + 1 => (h.fetchLoop P i).bind fun h => Heap.queueIoCmdRun P i 8 h .lock

def Heap.prepared (info : DevInfo) (qId : ℕ) (buf : ℕ → UInt64) (h : Heap) : Heap :=
  ⟨Queue.prepared info qId buf h.queue, h.words⟩

def Heap.ublksrvQueueInit (P : Pthread) (info : DevInfo) (qId : ℕ) (buf : ℕ → UInt64) (h : Heap) :
    Option Memory :=
  ((h.prepared info qId buf).fetchLoop P info.queueDepth.toNat).map fun h => initLocks h.queue

structure Visit where
  heap : Heap
  tag : ℕ
  pc : IoCmdPc

def Heap.queueIoCmdVisits (P : Pthread) (tag : ℕ) : ℕ → Heap → IoCmdPc → List Visit
  | 0, h, pc => [⟨h, tag, pc⟩]
  | n + 1, h, pc =>
    ⟨h, tag, pc⟩ :: (h.queueIoCmdStep P tag pc).elim [] fun s => Heap.queueIoCmdVisits P tag n s.1 s.2

def Heap.fetchVisits (P : Pthread) (h : Heap) : ℕ → List Visit
  | 0 => []
  | i + 1 => h.fetchVisits P i ++ (h.fetchLoop P i).elim [] fun h => Heap.queueIoCmdVisits P i 8 h .lock

/-- What a step does, without the values it finds: the operation on a lock, the counter or the
condition variable, the SQE that it queues, or the returned value. -/
structure Seen where
  tag : ℕ
  pc : IoCmdPc
  sqe : Option Sqe
  deriving DecidableEq

def Visit.seen (v : Visit) : Seen :=
  ⟨v.tag, v.pc, (queuedOp v.heap.queue v.tag v.pc).map (prepSqe v.heap.queue v.tag)⟩

def Heap.fetchTrace (P : Pthread) (h : Heap) (n : ℕ) : List Seen := (h.fetchVisits P n).map Visit.seen

section

variable {P : Pthread} {h h' : Heap} {w w' : Words} {info : DevInfo} {qId : ℕ} {buf : ℕ → UInt64}
  {q : Memory} {tag k n : ℕ} {op : IoCmdOp}

def Words.unlock (P : Pthread) (w : Words) : Option Words :=
  (P.mutexUnlock w.lock).map fun m => { w with lock := m }

def Words.signal (P : Pthread) (w : Words) : Option Words :=
  (P.mutexLock w.condMutex).bind fun m => (P.condSignal w.cond).bind fun c =>
    (P.mutexUnlock m).map fun m => { w with condMutex := m, cond := c }

def Words.call (P : Pthread) (last : Bool) (w : Words) : Option Words :=
  (P.mutexLock w.lock).bind fun m =>
    (if last then Words.signal P { w with lock := m } else some { w with lock := m }).bind (Words.unlock P)

def Words.unlockPcs (P : Pthread) (w : Words) : List IoCmdPc :=
  .unlock :: (P.mutexUnlock w.lock).elim [] fun _ => [.ret 1]

def Words.signalPcs (P : Pthread) (w : Words) : List IoCmdPc :=
  .condLock :: (P.mutexLock w.condMutex).elim [] fun m =>
    .condSignal :: (P.condSignal w.cond).elim [] fun _ =>
      .condUnlock :: (P.mutexUnlock m).elim [] fun _ => w.unlockPcs P

/-- What a call with work to do goes through; `last` when the counter is 1. -/
def Words.callPcs (P : Pthread) (last : Bool) (w : Words) : List IoCmdPc :=
  .lock :: (P.mutexLock w.lock).elim [] fun m =>
    [.fill, .sub] ++
      if last then Words.signalPcs P { w with lock := m } else Words.unlockPcs P { w with lock := m }

def Words.rounds (P : Pthread) (c : ℤ) (w : Words) : ℕ → Option Words
  | 0 => some w
  | i + 1 => (w.rounds P c i).bind (Words.call P (c = i + 1))

def seenAt (tag : ℕ) (sqe : Sqe) (pc : IoCmdPc) : Seen := ⟨tag, pc, if pc = .fill then some sqe else none⟩

theorem run_unlock : Heap.queueIoCmdRun P tag (k + 2) h .unlock =
    (h.words.unlock P).map fun w => { h with words := w } := by
  cases hu : P.mutexUnlock h.words.lock with
  | none => simp [Heap.queueIoCmdRun, Heap.queueIoCmdStep, Words.unlock, hu]
  | some m => simp [Heap.queueIoCmdRun, Heap.queueIoCmdStep, Words.unlock, hu]

theorem run_condLock : Heap.queueIoCmdRun P tag (k + 5) h .condLock =
    ((h.words.signal P).bind (Words.unlock P)).map fun w => { h with words := w } := by
  simp only [Heap.queueIoCmdRun, Heap.queueIoCmdStep, Words.signal]
  cases hm : P.mutexLock h.words.condMutex with
  | none => rfl
  | some m =>
    simp only [Option.map_some, Option.bind_some, Heap.queueIoCmdRun, Heap.queueIoCmdStep]
    cases hc : P.condSignal h.words.cond with
    | none => rfl
    | some c =>
      simp only [Option.map_some, Option.bind_some, Heap.queueIoCmdRun, Heap.queueIoCmdStep]
      cases hu : P.mutexUnlock m with
      | none => rfl
      | some m' =>
        simp only [Option.map_some, Option.bind_some, run_unlock]

theorem run_sub : Heap.queueIoCmdRun P tag (k + 6) h .sub =
    ((if h.queue.tgtIoInflight = 1 then h.words.signal P else some h.words).bind (Words.unlock P)).map
      fun w => ⟨{ h.queue with tgtIoInflight := wrapInt (h.queue.tgtIoInflight - 1) }, w⟩ := by
  rw [Heap.queueIoCmdRun, Heap.queueIoCmdStep, Option.bind_some]
  · by_cases hc : h.queue.tgtIoInflight = 1
    · rw [if_pos hc, if_pos hc, run_condLock]
    · rw [if_neg hc, if_neg hc, run_unlock, Option.bind_some]
  · rintro r ⟨⟩

theorem run_call (hn : neededOp (h.queue.ios tag).flags = some op)
    (hr : h.queue.ring.sq.length < h.queue.ring.sqEntries) :
    Heap.queueIoCmdRun P tag 8 h .lock = (h.words.call P (h.queue.tgtIoInflight = 1)).map fun w =>
      ⟨{ filled h.queue tag op with tgtIoInflight := wrapInt (h.queue.tgtIoInflight - 1) }, w⟩ := by
  have hfill : fillSqe h.queue tag = .ok (filled h.queue tag op) := by simp [fillSqe, hn, hr, filled]
  rw [Heap.queueIoCmdRun, Heap.queueIoCmdStep, Words.call]
  · cases hl : P.mutexLock h.words.lock with
    | none => rfl
    | some m =>
      simp only [Option.map_some, Option.bind_some, decide_eq_true_eq]
      rw [Heap.queueIoCmdRun, Heap.queueIoCmdStep, hfill, Option.bind_some, run_sub]
      · rfl
      · rintro r ⟨⟩
  · rintro r ⟨⟩

theorem visits_unlock (sqe : Sqe) : (Heap.queueIoCmdVisits P tag (k + 2) h .unlock).map Visit.seen =
    (h.words.unlockPcs P).map (seenAt tag sqe) := by
  rw [Heap.queueIoCmdVisits, Heap.queueIoCmdStep, Words.unlockPcs]
  cases hu : P.mutexUnlock h.words.lock with
  | none => rfl
  | some m => rfl

theorem visits_condLock (sqe : Sqe) : (Heap.queueIoCmdVisits P tag (k + 5) h .condLock).map Visit.seen =
    (h.words.signalPcs P).map (seenAt tag sqe) := by
  rw [Heap.queueIoCmdVisits, Heap.queueIoCmdStep, Words.signalPcs]
  cases hm : P.mutexLock h.words.condMutex with
  | none => rfl
  | some m =>
    simp only [Option.map_some, Option.elim_some, List.map_cons]
    rw [Heap.queueIoCmdVisits, Heap.queueIoCmdStep]
    cases hc : P.condSignal h.words.cond with
    | none => rfl
    | some c =>
      simp only [Option.map_some, Option.elim_some, List.map_cons]
      rw [Heap.queueIoCmdVisits, Heap.queueIoCmdStep]
      cases hu : P.mutexUnlock m with
      | none => rfl
      | some m' =>
        simp only [Option.map_some, Option.elim_some, List.map_cons]
        rw [visits_unlock sqe]
        rfl

theorem visits_sub (sqe : Sqe) : (Heap.queueIoCmdVisits P tag (k + 6) h .sub).map Visit.seen =
    (.sub :: if h.queue.tgtIoInflight = 1 then h.words.signalPcs P else h.words.unlockPcs P).map
      (seenAt tag sqe) := by
  rw [Heap.queueIoCmdVisits, Heap.queueIoCmdStep, Option.elim_some, List.map_cons, List.map_cons]
  congr 1
  by_cases hc : h.queue.tgtIoInflight = 1
  · rw [if_pos hc, if_pos hc, visits_condLock sqe]
  · rw [if_neg hc, if_neg hc, visits_unlock sqe]

theorem visits_call (hn : neededOp (h.queue.ios tag).flags = some op)
    (hr : h.queue.ring.sq.length < h.queue.ring.sqEntries) :
    (Heap.queueIoCmdVisits P tag 8 h .lock).map Visit.seen =
      (h.words.callPcs P (h.queue.tgtIoInflight = 1)).map (seenAt tag (prepSqe h.queue tag op)) := by
  have hfill : fillSqe h.queue tag = .ok (filled h.queue tag op) := by simp [fillSqe, hn, hr, filled]
  have hop : queuedOp h.queue tag .fill = some op := (if_pos hr).trans hn
  rw [Heap.queueIoCmdVisits, Heap.queueIoCmdStep, Words.callPcs]
  cases hl : P.mutexLock h.words.lock with
  | none => rfl
  | some m =>
    simp only [Option.map_some, Option.elim_some, List.map_cons, decide_eq_true_eq]
    rw [Heap.queueIoCmdVisits, Heap.queueIoCmdStep, hfill, Option.elim_some, List.map_cons,
      visits_sub (prepSqe h.queue tag op)]
    simp only [Visit.seen, hop, Option.map_some]
    rfl

theorem fetchLoop_rounds (hq : Fetchable n q) (hk : k ≤ n) : Heap.fetchLoop P ⟨q, w⟩ k =
    (w.rounds P q.tgtIoInflight k).map fun w => ⟨fetched q k q.cond, w⟩ := by
  induction k with
  | zero => rw [Heap.fetchLoop, Words.rounds, Option.map_some, fetched_zero hq]
  | succ k ih =>
    rw [Heap.fetchLoop, ih (by omega), Words.rounds, Option.bind_map, Option.map_bind]
    congr 1
    funext w
    have hlast : (fetched q k q.cond).tgtIoInflight = 1 ↔ q.tgtIoInflight = k + 1 := last_iff hq hk
    have hset := fetched_succ (q := q) (k := k) (w := q.cond)
    simp only [Function.comp, run_call (h := ⟨fetched q k q.cond, w⟩) (fetched_needed hq hk)
      (fetched_room hq hk), hlast, hset]

theorem fetchTrace_rounds (hq : Fetchable n q) (hk : k ≤ n) : Heap.fetchTrace P ⟨q, w⟩ k =
    (List.range k).flatMap fun i =>
      ((w.rounds P q.tgtIoInflight i).elim [] (Words.callPcs P (q.tgtIoInflight = i + 1))).map
        (seenAt i (prepSqe q i .fetchReq)) := by
  induction k with
  | zero => rfl
  | succ k ih =>
    rw [List.range_succ, List.flatMap_append, List.flatMap_singleton, ← ih (by omega), Heap.fetchTrace,
      Heap.fetchVisits, List.map_append, fetchLoop_rounds hq (by omega)]
    congr 1
    cases hw : w.rounds P q.tgtIoInflight k with
    | none => rfl
    | some w' =>
      have hlast : (fetched q k q.cond).tgtIoInflight = 1 ↔ q.tgtIoInflight = k + 1 := last_iff hq hk
      simp only [Option.map_some, Option.elim_some,
        visits_call (h := ⟨fetched q k q.cond, w'⟩) (fetched_needed hq hk) (fetched_room hq hk), hlast,
        prepSqe_fetched]

theorem queueInit_isSome (hc : wrapInt h.queue.tgtIoInflight = h.queue.tgtIoInflight) :
    (h.ublksrvQueueInit P info qId buf).isSome =
      (h.words.rounds P h.queue.tgtIoInflight info.queueDepth.toNat).isSome := by
  rw [Heap.ublksrvQueueInit, Option.isSome_map, Heap.prepared,
    fetchLoop_rounds (fetchable_prepared hc) le_rfl, Option.isSome_map]
  rfl

theorem queueInit_some (hc : wrapInt h.queue.tgtIoInflight = h.queue.tgtIoInflight)
    (hs : h.ublksrvQueueInit P info qId buf = some q) :
    q = initLocks (fetched (prepared info qId buf h.queue) info.queueDepth.toNat h.queue.cond) := by
  rw [Heap.ublksrvQueueInit, Heap.prepared, fetchLoop_rounds (fetchable_prepared hc) le_rfl,
    Option.map_map] at hs
  obtain ⟨w, -, rfl⟩ := Option.map_eq_some_iff.mp hs
  rfl

/-- A queue that the init returns is one that it returns when it finds its mutexes free. -/
theorem queueInit_memory (hc : wrapInt h.queue.tgtIoInflight = h.queue.tgtIoInflight)
    (hs : h.ublksrvQueueInit P info qId buf = some q) :
    ublksrvQueueInit (ublksrvDevInit info) qId buf { h.queue with lock := false, condMutex := false } =
      some q := by
  have hf : Fetchable info.queueDepth.toNat
      (prepared info qId buf { h.queue with lock := false, condMutex := false }) := fetchable_prepared hc
  obtain ⟨w, hw⟩ := fetchLoop_free hf rfl rfl le_rfl
  rw [ublksrvQueueInit_eq, hw, queueInit_some hc hs]
  rfl

/-- A library whose calls all return and change nothing. -/
def Pthread.returning : Pthread := ⟨some, some, some⟩

theorem call_returning (last : Bool) (w : Words) : w.call .returning last = some w := by
  cases last <;> rfl

theorem rounds_returning (c : ℤ) (w : Words) (k : ℕ) : w.rounds .returning c k = some w := by
  induction k with
  | zero => rfl
  | succ k ih => rw [Words.rounds, ih, Option.bind_some, call_returning]

end

end GoUblksrv.Queue
