import GoUblksrv.Lib.ListCount
import GoUblksrv.Queue.Threads
import GoUblksrv.Queue.UserData

/-!
What one step can do, one constructor a case. Every invariant of the queue is
proved from these cases and never unfolds the step functions.
-/

namespace GoUblksrv.Queue

def Sqe.tag (e : Sqe) : ℕ := (userDataToTag e.userData).toNat

variable {q : Memory} {tag : ℕ}

theorem Sqe.tag_lt (e : Sqe) : e.tag < 2 ^ 16 := by
  simp only [Sqe.tag, userDataToTag, UInt64.toNat_toUInt32, UInt64.toNat_and]
  have h : e.userData.toNat &&& (0xffff : UInt64).toNat ≤ 0xffff := Nat.and_le_right
  omega

theorem prepSqe_tag (q : Memory) (op : IoCmdOp) (h : tag < 2 ^ 16) : (prepSqe q tag op).tag = tag := by
  have ht : (UInt32.ofNat tag).toNat = tag := by
    simp only [UInt32.toNat_ofNat']
    omega
  rw [Sqe.tag, prepSqe, userDataToTag_build (by omega) (iocNr_lt _), ht]

theorem prepSqe_driverIo (q : Memory) (tag : ℕ) (op : IoCmdOp) :
    isTargetIo (prepSqe q tag op).userData = false := isTargetIo_build

def filled (q : Memory) (tag : ℕ) (op : IoCmdOp) : Memory :=
  { setFlags q tag {} with ring := { q.ring with sq := q.ring.sq ++ [prepSqe q tag op] } }

inductive CallStep (q : Memory) (tag : ℕ) : IoCmdPc → Memory → IoCmdPc → Prop
  | lock : q.lock = false → CallStep q tag .lock { q with lock := true } .fill
  | noWork : neededOp (q.ios tag).flags = none → CallStep q tag .fill q (.ret 0)
  | noSqe (op : IoCmdOp) : neededOp (q.ios tag).flags = some op →
      q.ring.sqEntries ≤ q.ring.sq.length → CallStep q tag .fill q (.ret (-1))
  | fill (op : IoCmdOp) : neededOp (q.ios tag).flags = some op →
      q.ring.sq.length < q.ring.sqEntries → CallStep q tag .fill (filled q tag op) .sub
  | subLast : q.tgtIoInflight = 1 →
      CallStep q tag .sub { q with tgtIoInflight := wrapInt (q.tgtIoInflight - 1) } .condLock
  | sub : q.tgtIoInflight ≠ 1 →
      CallStep q tag .sub { q with tgtIoInflight := wrapInt (q.tgtIoInflight - 1) } .unlock
  | condLock : q.condMutex = false → CallStep q tag .condLock { q with condMutex := true } .condSignal
  | condSignal : CallStep q tag .condSignal { q with cond := q.cond.signal } .condUnlock
  | condUnlock : CallStep q tag .condUnlock { q with condMutex := false } .unlock
  | unlock : CallStep q tag .unlock { q with lock := false } (.ret 1)

theorem queueIoCmdStep_cases {q' : Memory} {pc pc' : IoCmdPc} (h : queueIoCmdStep q tag pc = some (q', pc')) :
    CallStep q tag pc q' pc' := by
  cases pc with
  | lock =>
    simp only [queueIoCmdStep] at h
    split at h
    · cases h
    · cases h
      exact .lock (by simpa using ‹¬q.lock = true›)
  | fill =>
    simp only [queueIoCmdStep, fillSqe] at h
    cases hn : neededOp (q.ios tag).flags with
    | none =>
      simp only [hn, Option.some.injEq, Prod.mk.injEq] at h
      obtain ⟨rfl, rfl⟩ := h
      exact .noWork hn
    | some op =>
      simp only [hn] at h
      split_ifs at h with hr
      · simp only [Option.some.injEq, Prod.mk.injEq] at h
        obtain ⟨rfl, rfl⟩ := h
        exact .fill op hn hr
      · simp only [Option.some.injEq, Prod.mk.injEq] at h
        obtain ⟨rfl, rfl⟩ := h
        exact .noSqe op hn (by omega)
  | sub =>
    simp only [queueIoCmdStep, Option.some.injEq, Prod.mk.injEq] at h
    obtain ⟨rfl, rfl⟩ := h
    split_ifs with hc
    · exact .subLast hc
    · exact .sub hc
  | condLock =>
    simp only [queueIoCmdStep] at h
    split at h
    · cases h
    · cases h
      exact .condLock (by simpa using ‹¬q.condMutex = true›)
  | condSignal => cases h; exact .condSignal
  | condUnlock => cases h; exact .condUnlock
  | unlock => cases h; exact .unlock
  | ret r => cases h

/-- A goroutine inside the call of `ublksrv_complete_io`, with its history. -/
def Task.called (t : Task) (q : Memory) (pc : IoCmdPc) (next : TaskPc) : Task :=
  { t with
    pc := next
    queued := t.queued ++ (queuedOp q t.tag pc).toList
    subs := if pc = .sub then t.subs + 1 else t.subs }

inductive TaskStep (q : Memory) (t : Task) : Bool → Memory → Task → List Event → Prop
  | verdict (failed : Bool) : t.pc = .handling → TaskStep q t failed q
      { t with failed := failed, pc := if failed then .failMark else .copyOut } []
  | failMark (f : Bool) : t.pc = .failMark → TaskStep q t f (ublksrvMarkIoDone q t.tag eio)
      { t with pc := .failCmd .lock } []
  | failCall (f : Bool) (q' : Memory) (pc pc' : IoCmdPc) : t.pc = .failCmd pc → CallStep q t.tag pc q' pc' →
      TaskStep q t f q' (t.called q pc (.failCmd pc')) (queueEvents q t.tag (some t.rid) pc)
  | failRet (f : Bool) (r : ℤ) : t.pc = .failCmd (.ret r) → TaskStep q t f q { t with pc := .copyOut } []
  | copyOut (f : Bool) : t.pc = .copyOut → TaskStep q t f q { t with pc := .finalRes }
      (if t.opType = longhornCmdTypeRead then [.writeBuf t.tag t.rid] else [])
  | finalUnmap (f : Bool) : t.pc = .finalRes → t.opType = longhornCmdTypeUnmap →
      TaskStep q t f q { t with pc := .mark 0 } []
  | finalRes (f : Bool) : t.pc = .finalRes → t.opType ≠ longhornCmdTypeUnmap →
      TaskStep q t f q { t with pc := .mark (getNrSectors (q.ioCmdBuf t.tag) <<< 9).toInt32 }
        [.readDesc t.tag t.rid]
  | mark (f : Bool) (res : Int32) : t.pc = .mark res → TaskStep q t f (ublksrvMarkIoDone q t.tag res)
      { t with pc := .cmd .lock } []
  | call (f : Bool) (q' : Memory) (pc pc' : IoCmdPc) : t.pc = .cmd pc → CallStep q t.tag pc q' pc' →
      TaskStep q t f q' (t.called q pc (.cmd pc')) (queueEvents q t.tag (some t.rid) pc)
  | ret (f : Bool) (r : ℤ) : t.pc = .cmd (.ret r) → TaskStep q t f q { t with pc := .putMsg } []
  | putMsg (f : Bool) : t.pc = .putMsg → TaskStep q t f q { t with pc := .ended } []

variable {q' : Memory} {t t' : Task} {failed : Bool} {ev : List Event}

theorem inCall_cases {pc : IoCmdPc} {k : IoCmdPc → TaskPc}
    (h : taskStep.inCall q t pc k = some (q', t', ev)) :
    ∃ pc', CallStep q t.tag pc q' pc' ∧ t' = t.called q pc (k pc') ∧
      ev = queueEvents q t.tag (some t.rid) pc := by
  simp only [taskStep.inCall, Option.map_eq_some_iff, Prod.mk.injEq] at h
  obtain ⟨⟨q₁, pc'⟩, hs, rfl, rfl, rfl⟩ := h
  exact ⟨pc', queueIoCmdStep_cases hs, rfl, rfl⟩

theorem taskStep_cases (h : taskStep q t failed = some (q', t', ev)) :
    TaskStep q t failed q' t' ev := by
  cases hp : t.pc with
  | failCmd pc =>
    cases pc with
    | ret r =>
      simp only [taskStep, hp, Option.some.injEq, Prod.mk.injEq] at h
      obtain ⟨rfl, rfl, rfl⟩ := h
      exact .failRet _ r hp
    | _ =>
      simp only [taskStep, hp] at h
      obtain ⟨pc', hc, rfl, rfl⟩ := inCall_cases h
      exact .failCall _ _ _ pc' hp hc
  | cmd pc =>
    cases pc with
    | ret r =>
      simp only [taskStep, hp, Option.some.injEq, Prod.mk.injEq] at h
      obtain ⟨rfl, rfl, rfl⟩ := h
      exact .ret _ r hp
    | _ =>
      simp only [taskStep, hp] at h
      obtain ⟨pc', hc, rfl, rfl⟩ := inCall_cases h
      exact .call _ _ _ pc' hp hc
  | finalRes =>
    simp only [taskStep, hp] at h
    split_ifs at h with ho
    all_goals
      simp only [Option.some.injEq, Prod.mk.injEq] at h
      obtain ⟨rfl, rfl, rfl⟩ := h
    · exact .finalUnmap _ hp ho
    · exact .finalRes _ hp ho
  | ended => simp [taskStep, hp] at h
  | _ =>
    simp only [taskStep, hp, Option.some.injEq, Prod.mk.injEq] at h
    obtain ⟨rfl, rfl, rfl⟩ := h
    first
    | exact .verdict _ hp
    | exact .failMark _ hp
    | exact .copyOut _ hp
    | exact .mark _ _ hp
    | exact .putMsg _ hp

theorem TaskStep.rid_eq (h : TaskStep q t failed q' t' ev) : t'.rid = t.rid := by
  cases h <;> rfl

theorem TaskStep.queued_grows (h : TaskStep q t failed q' t' ev) : t.queued <+: t'.queued := by
  cases h with
  | failCall | call => exact List.prefix_append _ _
  | _ => exact List.prefix_rfl

/-- The state in which `ublksrv_handle_cqe` runs for command `i`. -/
def State.taken (s : State) (i : ℕ) : State :=
  { s with driver := s.driver.eraseIdx i, thread := { s.thread with reapped := s.thread.reapped + 1 } }

inductive Step (s : State) : Act → State → Prop
  | done : s.thread.pc = .processIo → ublksrvQueueIsDone s.mem = true →
      Step s .thread { s.goto .exited with log := s.log ++ [.exit] }
  | enter : s.thread.pc = .processIo → ublksrvQueueIsDone s.mem = false →
      Step s .thread { s with thread := ⟨.lockCond, s.mem.idle, false, 0⟩ }
  | lockCond : s.thread.pc = .lockCond → s.mem.condMutex = false →
      Step s .thread { s.goto .loadInflight with mem := { s.mem with condMutex := true } }
  | loadWait : s.thread.pc = .loadInflight → 0 < s.mem.tgtIoInflight →
      Step s .thread (s.goto .condWait)
  | loadPass : s.thread.pc = .loadInflight → s.mem.tgtIoInflight ≤ 0 →
      Step s .thread (s.goto .unlockCond)
  | sleep : s.thread.pc = .condWait →
      Step s .thread { s.goto .blocked with mem := { s.mem with condMutex := false, cond := .asleep } }
  | wake : s.thread.pc = .blocked → s.mem.cond = .woken → s.mem.condMutex = false →
      Step s .thread
        { s.goto .loadInflight with mem := { s.mem with condMutex := true, cond := .none } }
  | unlockCond : s.thread.pc = .unlockCond →
      Step s .thread { s.goto .submit with mem := { s.mem with condMutex := false } }
  | fetchAdd : s.thread.pc = .fetchAdd →
      Step s .thread
        { s.goto .reap with
          mem := { s.mem with tgtIoInflight := wrapInt (s.mem.tgtIoInflight + 1) } }
  | getDataRet (tag : ℕ) (r : ℤ) : s.thread.pc = .getData tag (.ret r) → Step s .thread (s.goto .reap)
  | getData (tag : ℕ) (q' : Memory) (pc pc' : IoCmdPc) : s.thread.pc = .getData tag pc →
      CallStep s.mem tag pc q' pc' →
      Step s .thread
        { s.goto (.getData tag pc') with
          mem := q'
          getDatas := if pc = .sub then s.getDatas + 1 else s.getDatas
          log := s.log ++ queueEvents s.mem tag none pc }
  | spurious : s.thread.pc = .blocked → s.mem.cond = .asleep →
      Step s .spurious { s with mem := { s.mem with cond := .woken } }
  | submitAll : s.thread.pc = .submit →
      Step s (.submit s.mem.ring.sq.length)
        { s.goto .waitCqe with
          mem := { s.mem with ring := { s.mem.ring with sq := [] } }
          driver := s.driver ++ s.mem.ring.sq
          batch := 0 }
  | submitPart (n : ℕ) : s.thread.pc = .submit → n < s.mem.ring.sq.length →
      Step s (.submit n)
        { s.goto .reap with
          mem := { s.mem with ring := { s.mem.ring with sq := s.mem.ring.sq.drop n } }
          driver := s.driver ++ s.mem.ring.sq.take n
          batch := 0 }
  | waitCqe (timedOut : Bool) : s.thread.pc = .waitCqe →
      Step s (.waitCqe timedOut) { s with thread := { s.thread with pc := .reap, timedOut := timedOut } }
  | reapTarget (i : ℕ) (c : Sqe) (res : Int32) (iod : IoDesc) : s.thread.pc = .reap →
      s.driver[i]? = some c → isTargetIo c.userData = true → Step s (.reap i res iod) (s.taken i)
  | reapOk (i : ℕ) (c : Sqe) (iod : IoDesc) : s.thread.pc = .reap → s.driver[i]? = some c →
      Step s (.reap i ublkIoResOk iod)
        { (s.taken i).goto (.onRequest c.tag s.served) with
          mem :=
            { stopUnlessFetch s.mem c.tag ublkIoResOk with
              ioCmdBuf :=
                Function.update (stopUnlessFetch s.mem c.tag ublkIoResOk).ioCmdBuf c.tag iod }
          served := s.served + 1
          batch := s.batch + 1
          log := s.log ++ [.deliver c.tag s.served] }
  | reapGetData (i : ℕ) (c : Sqe) (iod : IoDesc) : s.thread.pc = .reap → s.driver[i]? = some c →
      Step s (.reap i ublkIoResNeedGetData iod)
        { (s.taken i).goto (.getData c.tag .lock) with
          mem := setFlags (stopUnlessFetch s.mem c.tag ublkIoResNeedGetData) c.tag
            { ((stopUnlessFetch s.mem c.tag ublkIoResNeedGetData).ios c.tag).flags with
              needGetData := true, ioFree := true }
          log := s.log ++ [.complete c.tag] }
  | reapOther (i : ℕ) (c : Sqe) (res : Int32) (iod : IoDesc) : s.thread.pc = .reap →
      s.driver[i]? = some c → res ≠ ublkIoResOk → res ≠ ublkIoResNeedGetData →
      Step s (.reap i res iod)
        { s.taken i with
          mem := setFlags (stopUnlessFetch s.mem c.tag res) c.tag { ioFree := true }
          log := s.log ++ [.complete c.tag] }
  | reapEnd : s.thread.pc = .reap → Step s .reapEnd (afterReap s)
  | request (tag rid : ℕ) : s.thread.pc = .onRequest tag rid →
      Step s (.onRequest true)
        { s.goto .fetchAdd with
          tasks := s.tasks ++
            [⟨rid, tag, reqToLonghornCmdType (s.mem.ioCmdBuf tag), false, .handling, [], 0⟩] }
  | drop (tag rid : ℕ) : s.thread.pc = .onRequest tag rid →
      Step s (.onRequest false) { s.goto .fetchAdd with dropped := s.dropped + 1 }
  | task (i : ℕ) (t : Task) (failed : Bool) (q' : Memory) (t' : Task) (ev : List Event) :
      s.tasks[i]? = some t → TaskStep s.mem t failed q' t' ev →
      Step s (.task i failed) { s with mem := q', tasks := s.tasks.set i t', log := s.log ++ ev }

theorem threadStep_cases {s s' : State} (h : threadStep s s.thread.pc = some s') :
    Step s .thread s' := by
  cases hp : s.thread.pc with
  | processIo =>
    simp only [threadStep, hp] at h
    split_ifs at h with hd <;> cases h
    · exact .done hp hd
    · exact .enter hp (by simpa using hd)
  | lockCond =>
    simp only [threadStep, hp] at h
    split_ifs at h with hm
    cases h
    exact .lockCond hp (by simpa using hm)
  | loadInflight =>
    simp only [threadStep, hp, Option.some.injEq] at h
    subst h
    split_ifs with hc
    · exact .loadWait hp hc
    · exact .loadPass hp (by omega)
  | blocked =>
    simp only [threadStep, hp] at h
    split_ifs at h with hm
    cases h
    exact .wake hp hm.1 hm.2
  | getData tag pc =>
    cases pc with
    | ret r =>
      simp only [threadStep, hp, Option.some.injEq] at h
      subst h
      exact .getDataRet tag r hp
    | _ =>
      simp only [threadStep, hp, Option.map_eq_some_iff] at h
      obtain ⟨⟨q₁, pc'⟩, hs, rfl⟩ := h
      exact .getData tag q₁ _ pc' hp (queueIoCmdStep_cases hs)
  | condWait =>
    simp only [threadStep, hp, Option.some.injEq] at h
    exact h ▸ .sleep hp
  | unlockCond =>
    simp only [threadStep, hp, Option.some.injEq] at h
    exact h ▸ .unlockCond hp
  | fetchAdd =>
    simp only [threadStep, hp, Option.some.injEq] at h
    exact h ▸ .fetchAdd hp
  | submit | waitCqe | reap | onRequest _ _ | exited => simp [threadStep, hp] at h

theorem reap_cases {s s' : State} {i : ℕ} {res : Int32} {iod : IoDesc}
    (h : step s (.reap i res iod) = some s') : Step s (.reap i res iod) s' := by
  simp only [step] at h
  split_ifs at h with hp
  obtain ⟨c, hc, rfl⟩ := Option.map_eq_some_iff.mp h
  simp only [ublksrvHandleCqe]
  split_ifs with ht ho hg
  · exact .reapTarget i c res iod hp hc ht
  · subst ho
    exact .reapOk i c iod hp hc
  · subst hg
    exact .reapGetData i c iod hp hc
  · exact .reapOther i c res iod hp hc ho hg

theorem step_cases {s s' : State} {a : Act} (h : step s a = some s') : Step s a s' := by
  cases a with
  | thread => exact threadStep_cases h
  | spurious =>
    simp only [step] at h
    split_ifs at h with hp
    cases h
    exact .spurious hp.1 hp.2
  | submit n =>
    by_cases hp : s.thread.pc = .submit ∧ n ≤ s.mem.ring.sq.length
    · rw [step, if_pos hp] at h
      cases h
      by_cases hn : n = s.mem.ring.sq.length
      · subst hn
        simpa using Step.submitAll hp.1
      · rw [if_neg hn]
        exact .submitPart n hp.1 (by omega)
    · rw [step, if_neg hp] at h
      cases h
  | waitCqe timedOut =>
    simp only [step] at h
    split_ifs at h with hp
    cases h
    exact .waitCqe timedOut hp.1
  | reap i res iod => exact reap_cases h
  | reapEnd =>
    simp only [step] at h
    split_ifs at h with hp
    cases h
    exact .reapEnd hp
  | onRequest registered =>
    simp only [step] at h
    split at h
    · rename_i tag rid hp
      split_ifs at h with hr <;> cases h
      · subst hr
        exact .request tag rid hp
      · obtain rfl : registered = false := by simpa using hr
        exact .drop tag rid hp
    · cases h
  | task i failed =>
    simp only [step, Option.bind_eq_some_iff, Option.map_eq_some_iff] at h
    obtain ⟨t, ht, ⟨q', t', ev⟩, hs, rfl⟩ := h
    exact .task i t failed q' t' ev ht (taskStep_cases hs)

/-- What `ublksrv_queue_init` decides, or leaves as `malloc` returned it, for the whole life of a queue. -/
structure Setup where
  qId : ℕ
  qDepth : ℕ
  ioctlOp : Bool
  userCopy : Bool
  efd : ℤ
  sqEntries : ℕ

def Memory.setup (q : Memory) : Setup :=
  ⟨q.qId, q.qDepth, q.ioctlOp, q.userCopy, q.efd, q.ring.sqEntries⟩

theorem CallStep.setup {pc pc' : IoCmdPc} (h : CallStep q tag pc q' pc') : q'.setup = q.setup := by
  cases h <;> rfl

theorem TaskStep.setup (h : TaskStep q t failed q' t' ev) : q'.setup = q.setup := by
  cases h with
  | failCall _ _ _ _ hcall | call _ _ _ _ hcall => exact hcall.setup
  | _ => rfl

theorem stopUnlessFetch_setup (q : Memory) (tag : ℕ) (res : Int32) :
    (stopUnlessFetch q tag res).setup = q.setup := by
  unfold stopUnlessFetch
  split_ifs <;> rfl

section

variable {s s' : State} {a : Act}

theorem Step.setup (h : Step s a s') : s'.mem.setup = s.mem.setup := by
  cases h with
  | getData _ _ _ _ _ hcall => exact hcall.setup
  | task _ _ _ _ _ _ _ hst => exact hst.setup
  | reapOk | reapGetData | reapOther => exact stopUnlessFetch_setup _ _ _
  | _ => rfl

theorem Step.sqEntries (h : Step s a s') : s'.mem.ring.sqEntries = s.mem.ring.sqEntries :=
  congrArg Setup.sqEntries h.setup

theorem Step.qDepth (h : Step s a s') : s'.mem.qDepth = s.mem.qDepth := congrArg Setup.qDepth h.setup

theorem Step.efd (h : Step s a s') : s'.mem.efd = s.mem.efd := congrArg Setup.efd h.setup

end

end GoUblksrv.Queue
