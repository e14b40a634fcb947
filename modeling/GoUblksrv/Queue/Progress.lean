import GoUblksrv.Lib.Progress
import GoUblksrv.Queue.Discipline
import GoUblksrv.Queue.WakeUp

namespace GoUblksrv.Queue

variable {info : DevInfo} {s s' : State} {a : Act} {t t' : Task} {q q' : Memory} {ev : List Event}
  {tag i : ℕ} {pc pc' : IoCmdPc}

/-- No handler error and no NEED_GET_DATA, and `onRequestAsync` finds its device. -/
def Orderly (s : State) (a : Act) : Prop := NoDrift s a ∧ a ≠ .onRequest false

instance (s : State) (a : Act) : Decidable (Orderly s a) :=
  inferInstanceAs (Decidable (a.drifts = false ∧ _))

/-- The steps that the process takes by itself, the answers of its handlers included. -/
def Act.own : Act → Bool
  | .thread | .reapEnd | .onRequest true | .task _ false => true
  | .spurious | .submit _ | .waitCqe _ | .reap .. | .onRequest false | .task _ true => false

def Own (a : Act) : Prop := a.own = true

theorem orderly_own (ha : Own a) (s : State) : Orderly s a := by
  unfold Own Act.own at ha
  split at ha
  · exact ⟨rfl, nofun⟩
  · exact ⟨rfl, nofun⟩
  · exact ⟨rfl, nofun⟩
  · exact ⟨rfl, nofun⟩
  all_goals cases ha

def ThreadPc.inKernel : ThreadPc → Bool
  | .submit | .waitCqe => true
  | _ => false

def IoCmdPc.rank : IoCmdPc → ℕ
  | .lock => 7
  | .fill => 6
  | .sub => 5
  | .condLock => 4
  | .condSignal => 3
  | .condUnlock => 2
  | .unlock => 1
  | .ret _ => 0

def TaskPc.rank : TaskPc → ℕ
  | .handling => 22
  | .failMark => 21
  | .failCmd pc => 13 + pc.rank
  | .copyOut => 12
  | .finalRes => 11
  | .mark _ => 10
  | .cmd pc => 2 + pc.rank
  | .putMsg => 1
  | .ended => 0

def Task.rank (t : Task) : ℕ := t.pc.rank

/-- The thread's steps to its next call of the kernel; a wait ends when it is woken. -/
def State.threadRank (s : State) : ℕ :=
  match s.thread.pc with
  | .exited | .submit | .waitCqe => 0
  | .blocked => if s.mem.cond = .woken then 3 else 0
  | .condWait | .unlockCond => 1
  | .loadInflight => 2
  | .lockCond => 3
  | .processIo => 4
  | .reap => 5
  | .fetchAdd => 6
  | .getData _ pc => 6 + pc.rank
  | .onRequest .. => 7 + 4 * 22

/-- A goroutine's step counts four times, as its signal gives the thread three steps back. -/
def State.potential (s : State) : ℕ := 4 * (s.tasks.map Task.rank).sum + s.threadRank

theorem CallStep.rank (h : CallStep q tag pc q' pc') : pc'.rank < pc.rank := by
  cases h <;> decide

theorem TaskStep.rank {failed : Bool} (h : TaskStep q t failed q' t' ev) : t'.rank < t.rank := by
  cases h with
  | failCall q' pc pc' hp hc =>
    have hlt := hc.rank
    simp only [Task.rank, Task.called, TaskPc.rank, hp]
    omega
  | call q' pc pc' hp hc =>
    have hlt := hc.rank
    simp only [Task.rank, Task.called, TaskPc.rank, hp]
    omega
  | verdict hp => cases failed <;> simp [Task.rank, TaskPc.rank, hp]
  | failRet r hp | ret r hp => simp [Task.rank, TaskPc.rank, IoCmdPc.rank, hp]
  | failMark hp | mark res hp | copyOut hp | finalUnmap hp | finalRes hp | putMsg hp =>
    simp [Task.rank, TaskPc.rank, IoCmdPc.rank, hp]

theorem threadRank_task (s : State) (q' : Memory) (tasks : List Task) (log : List Event) :
    State.threadRank { s with mem := q', tasks := tasks, log := log } ≤ s.threadRank + 3 := by
  simp only [State.threadRank]
  cases s.thread.pc with
  | blocked =>
    simp only
    split_ifs <;> omega
  | _ => exact Nat.le_add_right _ _

theorem potential_step (h : Step s a s') (ha : Own a) : s'.potential < s.potential := by
  cases h with
  | task i t failed q' t' ev hg hst =>
    have hsum := List.sum_map_set_of_get (b := t') (f := Task.rank) hg
    have hrank := hst.rank
    have hthread := threadRank_task s q' (s.tasks.set i t') (s.log ++ ev)
    simp only [State.potential]
    omega
  | request tag rid hpc =>
    simp [State.potential, State.threadRank, State.goto, hpc, Task.rank, TaskPc.rank]
    omega
  | getData tag q' pc pc' hpc hc =>
    have hlt := hc.rank
    simp [State.potential, State.threadRank, State.goto, hpc]
    omega
  | wake hpc hcond =>
    simp [State.potential, State.threadRank, State.goto, hpc, hcond]
  | reapEnd hpc => simp [State.potential, State.threadRank, State.goto, afterReap, hpc]
  | spurious | submitAll | submitPart | waitCqe | reapTarget | reapOk | reapGetData | reapOther | drop => cases ha
  | done hpc | enter hpc | lockCond hpc | loadWait hpc | loadPass hpc | sleep hpc | unlockCond hpc
  | fetchAdd hpc | getDataRet tag r hpc =>
    simp [State.potential, State.threadRank, State.goto, hpc, IoCmdPc.rank]

theorem lowers : (machine info).Lowers Own (fun s => (machine info).Reach Orderly s) State.potential where
  keeps _ _ _ hr ha hs := hr.step (orderly_own ha _) hs
  lowers _ _ _ _ ha hs := potential_step (step_cases hs) ha

theorem noDrift_reach (h : (machine info).Reach Orderly s) : (machine info).Reach NoDrift s :=
  h.mono fun _ _ hc => hc.1

theorem dropped_eq (h : (machine info).Reach Orderly s) : s.dropped = 0 := by
  apply h.invariant (I := fun s => s.dropped = 0)
  · rintro t ⟨qId, buf, mem, q, -, rfl⟩
    rfl
  · intro s a s' _ hi hc hs
    cases step_cases hs with
    | drop => exact absurd rfl hc.2
    | _ => exact hi

theorem waiting_reach {C : State → Act → Prop} (h : (machine info).Reach C s) :
    s.thread.pc = .blocked → s.mem.cond ≠ .none := by
  apply h.invariant (I := fun s => s.thread.pc = .blocked → s.mem.cond ≠ .none)
  · rintro t ⟨qId, buf, mem, q, -, rfl⟩ hpc
    cases hpc
  · intro s a s' _ hi _ hs
    cases step_cases hs with
    | task i t failed q' t' ev hg hst =>
      intro hpc
      have hold := hi hpc
      cases hst with
      | failCall q' pc pc' hp hc | call q' pc pc' hp hc =>
        cases hc with
        | condSignal =>
          change s.mem.cond.signal ≠ .none
          cases hcond : s.mem.cond with
          | none => exact absurd hcond hold
          | asleep | woken => nofun
        | _ => exact hold
      | _ => exact hold
    | sleep => exact fun _ => nofun
    | spurious => exact fun _ => nofun
    | reapTarget i c res iod hpc | reapOther i c res iod hpc =>
      simp [State.taken, hpc]
    | _ => simp [State.goto, State.taken, afterReap]

section

variable (h : (machine info).Reach Orderly s)

include h

theorem unfailed {t : Task} (ht : t ∈ s.tasks) : t.failed = false :=
  failed_reach (NoDrift.noFailure (noDrift_reach h)) t ht

theorem not_failing {t : Task} (ht : t ∈ s.tasks) : t.atFail = false := by
  cases hf : t.atFail with
  | false => rfl
  | true =>
    have hfailed := ((wf_reach h).tasks t ht).failed hf
    rw [unfailed h ht] at hfailed
    cases hfailed

theorem issues_orderly (a : Act) : Issues s a = true := by
  have hno := noDrift_reach h
  have hcall := (noGetData_reach hno).2
  cases a with
  | thread =>
    cases hpc : s.thread.pc with
    | getData tag pc => simp [hpc, ThreadPc.call] at hcall
    | _ => simp [Issues, State.filling, hpc]
  | task i failed =>
    cases hg : s.tasks[i]? with
    | none => simp [Issues, State.filling, hg]
    | some t =>
      by_cases hf : t.pc.call = some .fill
      · have hmem := List.mem_of_getElem? hg
        have hp : t.pc = .cmd .fill := by
          have hnot := not_failing h hmem
          unfold TaskPc.call at hf
          unfold Task.atFail at hnot
          split at hf <;> simp_all
        have hok := (wf_reach h).tasks t hmem
        have hq : t.queued.length = 0 := by
          have hcap := hok.cap
          simp only [Task.cap, hp, unfailed h hmem] at hcap
          exact Nat.le_zero.mp hcap
        have hsubs : t.subs = 0 := by
          have hcount := hok.subs
          omega
        have hcan : canIssue s.mem t.tag = true := by
          by_contra hcan
          rw [canIssue_iff] at hcan
          have he : neededOp (s.flags t.tag) = none ∨ s.mem.ring.sqEntries ≤ s.mem.ring.sq.length := by
            cases hn : neededOp (s.flags t.tag) with
            | none => exact .inl rfl
            | some op =>
              right
              by_contra hlt
              exact hcan ⟨⟨op, hn⟩, by omega⟩
          obtain ⟨u, hu, htwo⟩ := second_commit h hg hp hsubs he
          have hone := queued_le_one (NoDrift.noFailure hno) u hu
          have hcount := ((wf_reach h).tasks u hu).subs
          omega
        simp [Issues, State.filling, hg, hf, hcan]
      · simp [Issues, State.filling, hg, hf]
  | _ => rfl

theorem lockers_eq : lockers s = s.mem.lock.toNat := by
  apply h.invariant (I := fun s => lockers s = s.mem.lock.toNat)
  · rintro t ⟨qId, buf, mem, q, hq, rfl⟩
    simp [lockers, start, ThreadPc.call, (ublksrvQueueInit_initialised hq).lock]
  · intro t a t' hr hi _ hs
    exact lockers_issues hi (issues_orderly hr a) (step_cases hs)

end

def CanMove (s : State) : Prop := ∃ a, Own a ∧ (step s a).isSome = true

theorem canMove_task (hg : s.tasks[i]? = some t) (h : (taskStep s.mem t false).isSome = true) : CanMove s := by
  obtain ⟨r, hr⟩ := Option.isSome_iff_exists.mp h
  exact ⟨.task i false, rfl, by simp [step, hg, hr]⟩

/-- The steps of the thread, and of the goroutines in their calls of `ublksrv_queue_io_cmd`. -/
def Act.inside (s : State) : Act → Bool
  | .thread => true
  | .task i failed => !failed && s.tasks[i]?.any fun t => t.pc.call.isSome
  | .spurious | .submit _ | .waitCqe _ | .reap .. | .reapEnd | .onRequest _ => false

def CallMoves (s : State) : Prop := ∃ a, a.inside s = true ∧ (step s a).isSome = true

theorem CallMoves.canMove (h : CallMoves s) : CanMove s := by
  obtain ⟨a, ha, hs⟩ := h
  refine ⟨a, ?_, hs⟩
  cases a with
  | thread => rfl
  | task i failed =>
    cases failed with
    | true => cases ha
    | false => rfl
  | spurious | submit | waitCqe | reap | reapEnd | onRequest => cases ha

theorem callMoves_thread (h : (threadStep s s.thread.pc).isSome = true) : CallMoves s :=
  ⟨.thread, rfl, h⟩

theorem callMoves_task (hg : s.tasks[i]? = some t) (hp : t.pc.call.isSome = true)
    (h : (taskStep s.mem t false).isSome = true) : CallMoves s := by
  obtain ⟨r, hr⟩ := Option.isSome_iff_exists.mp h
  exact ⟨.task i false, by simp [Act.inside, hg, hp], by simp [step, hg, hr]⟩

theorem inCall_isSome {k : IoCmdPc → TaskPc} (h : (queueIoCmdStep q t.tag pc).isSome = true) :
    (taskStep.inCall q t pc k).isSome = true := by
  rwa [taskStep.inCall, Option.isSome_map]

theorem callMoves_call (hg : s.tasks[i]? = some t) (hp : t.pc.call = some pc)
    (h : (queueIoCmdStep s.mem t.tag pc).isSome = true) : CallMoves s := by
  apply callMoves_task hg
  · rw [hp]
    rfl
  have hret : ∀ r, pc ≠ .ret r := by
    rintro r rfl
    cases h
  unfold TaskPc.call at hp
  split at hp
  · cases hp
    cases pc <;> first | exact absurd rfl (hret _) | simpa [taskStep, *] using inCall_isSome h
  · cases hp
    cases pc <;> first | exact absurd rfl (hret _) | simpa [taskStep, *] using inCall_isSome h
  · cases hp

section

variable (h : (machine info).Reach Orderly s)

include h

theorem callMoves_of_condMutex (hm : s.mem.condMutex = true) : CallMoves s := by
  have hone := condHolders_reach h
  rw [hm, condHolders] at hone
  cases hpc : s.thread.pc.condHeld with
  | true =>
    apply callMoves_thread
    have hcall := (noGetData_reach (noDrift_reach h)).2
    cases hp : s.thread.pc with
    | loadInflight | condWait | unlockCond => rfl
    | getData => simp [hp, ThreadPc.call] at hcall
    | _ => simp [hp, ThreadPc.condHeld] at hpc
  | false =>
    have hpos : 0 < s.tasks.countP Task.condHeld := by
      rw [hpc] at hone
      simp only [Bool.toNat_true, Bool.toNat_false] at hone
      omega
    obtain ⟨t, ht, hheld⟩ := List.countP_pos_iff.mp hpos
    obtain ⟨i, hi⟩ := List.mem_iff_getElem?.mp ht
    obtain ⟨pc, hp, hheld⟩ := (Option.any_eq_true _ _).mp hheld
    apply callMoves_call hi hp
    cases pc <;> first | rfl | cases hheld

theorem callMoves_of_lock (hl : s.mem.lock = true) : CallMoves s := by
  have hone := lockers_eq h
  have hcall := (noGetData_reach (noDrift_reach h)).2
  rw [hl, lockers, hcall] at hone
  have hpos : 0 < s.tasks.countP Task.locked := by
    simp only [Option.any_none, Bool.toNat_true, Bool.toNat_false] at hone
    omega
  obtain ⟨t, ht, hlock⟩ := List.countP_pos_iff.mp hpos
  obtain ⟨i, hi⟩ := List.mem_iff_getElem?.mp ht
  obtain ⟨pc, hp, hlock⟩ := (Option.any_eq_true _ _).mp hlock
  cases hm : s.mem.condMutex with
  | true => exact callMoves_of_condMutex h hm
  | false =>
    apply callMoves_call hi hp
    cases pc with
    | condLock => simp [queueIoCmdStep, hm]
    | fill =>
      simp only [queueIoCmdStep]
      split <;> rfl
    | lock | ret => cases hlock
    | _ => rfl

theorem callMoves_of_call (hi : s.tasks[i]? = some t) (hc : t.pc.call = some pc) : CallMoves s := by
  cases pc with
  | lock =>
    cases hl : s.mem.lock with
    | true => exact callMoves_of_lock h hl
    | false => exact callMoves_call hi hc (by simp [queueIoCmdStep, hl])
  | condLock =>
    cases hm : s.mem.condMutex with
    | true => exact callMoves_of_condMutex h hm
    | false => exact callMoves_call hi hc (by simp [queueIoCmdStep, hm])
  | fill =>
    apply callMoves_call hi hc
    simp only [queueIoCmdStep]
    split <;> rfl
  | ret r =>
    apply callMoves_task hi (by simp [hc])
    unfold TaskPc.call at hc
    split at hc <;> cases hc <;> simp [taskStep, *]
  | sub | condSignal | condUnlock | unlock => exact callMoves_call hi hc rfl

omit h in
theorem taskStep_enabled (hc : t.pc.call = none) (hp : t.pc ≠ .ended) : (taskStep q t false).isSome = true := by
  cases hpc : t.pc with
  | failCmd | cmd => simp [hpc, TaskPc.call] at hc
  | ended => exact absurd hpc hp
  | finalRes =>
    simp only [taskStep, hpc]
    split_ifs <;> rfl
  | _ => simp [taskStep, hpc]

theorem canMove_of_task (ht : t ∈ s.tasks) (hp : t.pc ≠ .ended) : CanMove s := by
  obtain ⟨i, hi⟩ := List.mem_iff_getElem?.mp ht
  cases hc : t.pc.call with
  | some pc => exact (callMoves_of_call h hi hc).canMove
  | none => exact canMove_task hi (taskStep_enabled hc hp)

theorem pending_of_inflight (hpos : 0 < s.mem.tgtIoInflight) : ∃ t ∈ s.tasks, t.pc ≠ .ended := by
  have hno := noDrift_reach h
  rw [inflight_eq hno, dropped_eq h] at hpos
  have hcount : 0 < s.tasks.countP Task.inflight := by
    split_ifs at hpos <;> omega
  obtain ⟨t, ht, hin⟩ := List.countP_pos_iff.mp hcount
  refine ⟨t, ht, ?_⟩
  intro hp
  have hone := committed_reach (NoDrift.noFailure hno) t ht (by simp [Task.mayFill, hp])
  have hsubs := ((wf_reach h).tasks t ht).subs
  have hzero : t.subs = 0 := by simpa [Task.inflight] using hin
  simp only [Task.atSub, hp, Bool.toNat_false] at hsubs
  omega

omit h in
theorem inKernel_cases (hp : s.thread.pc.inKernel = true) : s.thread.pc = .submit ∨ s.thread.pc = .waitCqe := by
  cases hpc : s.thread.pc <;> simp [hpc, ThreadPc.inKernel] at hp ⊢

theorem canMove_of_thread (hs : s.thread.pc.inKernel = false) (he : s.thread.pc ≠ .exited) : CanMove s := by
  have hcall := (noGetData_reach (noDrift_reach h)).2
  cases hpc : s.thread.pc with
  | submit | waitCqe => simp [hpc, ThreadPc.inKernel] at hs
  | exited => exact absurd hpc he
  | getData => simp [hpc, ThreadPc.call] at hcall
  | reap => exact ⟨.reapEnd, rfl, by simp [step, hpc]⟩
  | onRequest tag rid => exact ⟨.onRequest true, rfl, by simp [step, hpc]⟩
  | processIo =>
    apply CallMoves.canMove
    apply callMoves_thread
    simp only [hpc, threadStep]
    split_ifs <;> rfl
  | loadInflight | condWait | unlockCond | fetchAdd => exact (callMoves_thread (by simp [hpc, threadStep])).canMove
  | lockCond =>
    cases hm : s.mem.condMutex with
    | true => exact (callMoves_of_condMutex h hm).canMove
    | false => exact (callMoves_thread (by simp [hpc, threadStep, hm])).canMove
  | blocked =>
    cases hcond : s.mem.cond with
    | none => exact absurd hcond (waiting_reach h hpc)
    | woken =>
      cases hm : s.mem.condMutex with
      | true => exact (callMoves_of_condMutex h hm).canMove
      | false => exact (callMoves_thread (by simp [hpc, threadStep, hm, hcond])).canMove
    | asleep =>
      rcases signalled_reach h (.inr ⟨hpc, hcond⟩) with hpos | ⟨t, ht, hsig⟩
      · obtain ⟨t, ht, hp⟩ := pending_of_inflight h hpos
        exact canMove_of_task h ht hp
      · apply canMove_of_task h ht
        intro hp
        simp [Task.signals, TaskPc.call, hp] at hsig

end

structure Settled (s : State) : Prop where
  thread : s.thread.pc.inKernel = true ∨ s.thread.pc = .exited
  ended : ∀ t ∈ s.tasks, t.pc = .ended ∧ t.queued.length = 1
  counter : s.mem.tgtIoInflight = 0
  lock : s.mem.lock = false
  condMutex : s.mem.condMutex = false

theorem settled_of_quiet (h : (machine info).Reach Orderly s) (hq : (machine info).Quiet Own s) :
    Settled s := by
  have hstuck : ¬ CanMove s := by
    rintro ⟨a, ha, hs⟩
    rw [show step s a = none from hq a ha] at hs
    cases hs
  have hended : ∀ t ∈ s.tasks, t.pc = .ended := by
    intro t ht
    by_contra hp
    exact hstuck (canMove_of_task h ht hp)
  have hthread : s.thread.pc.inKernel = true ∨ s.thread.pc = .exited := by
    by_contra hp
    rw [not_or, Bool.not_eq_true] at hp
    exact hstuck (canMove_of_thread h hp.1 hp.2)
  have hno := noDrift_reach h
  constructor
  · exact hthread
  · intro t ht
    refine ⟨hended t ht, ?_⟩
    exact committed_reach (NoDrift.noFailure hno) t ht (by simp [Task.mayFill, hended t ht])
  · have hcount : s.tasks.countP Task.inflight = 0 := by
      by_contra hne
      obtain ⟨t, ht, hin⟩ := List.countP_pos_iff.mp (Nat.pos_of_ne_zero hne)
      have hone := committed_reach (NoDrift.noFailure hno) t ht (by simp [Task.mayFill, hended t ht])
      have hsubs := ((wf_reach h).tasks t ht).subs
      have hzero : t.subs = 0 := by simpa [Task.inflight] using hin
      simp only [Task.atSub, hended t ht, Bool.toNat_false] at hsubs
      omega
    have hne : s.thread.pc ≠ .fetchAdd := by
      intro hp
      rcases hthread with ht | ht <;> rw [hp] at ht <;> cases ht
    rw [inflight_eq hno, dropped_eq h, hcount, if_neg hne]
    rfl
  · cases hl : s.mem.lock with
    | false => rfl
    | true => exact absurd (callMoves_of_lock h hl).canMove hstuck
  · cases hm : s.mem.condMutex with
    | false => rfl
    | true => exact absurd (callMoves_of_condMutex h hm).canMove hstuck

/-- Two reads are delivered, and the thread sleeps until both are completed. -/
def twoHeld : State :=
  (runFromIf (fun s a => decide (Orderly s a)) twoTags [.thread, .thread, .thread, .thread, .submit 2, .waitCqe false,
    .reap 0 ublkIoResOk ⟨0, 8, 0, 4096⟩, .onRequest true, .thread,
    .reap 0 ublkIoResOk ⟨0, 8, 0, 8192⟩, .onRequest true, .thread, .reapEnd, .thread, .thread, .thread,
    .thread]).get (by decide)

/-- The second read takes `q->lock` first. -/
def secondFirst : List Act := List.replicate 6 (.task 1 false) ++ List.replicate 4 (.task 0 false)

end GoUblksrv.Queue
