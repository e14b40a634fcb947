import GoUblksrv.Queue.Capacity
import GoUblksrv.Queue.Locks

namespace GoUblksrv.Queue

variable {s s' : State} {a : Act} {q q' : Memory} {tag : ℕ} {pc pc' : IoCmdPc} {info : DevInfo}

def highest (f : IoFlags) : Option IoCmdOp :=
  ([(f.needGetData, IoCmdOp.needGetData), (f.needCommitRqComp, .commitAndFetchReq),
    (f.needFetchRq, .fetchReq)].find? Prod.fst).map Prod.snd

structure Effect (q : Memory) (tag : ℕ) (r : ℤ) (q' : Memory) : Prop where
  result : r = 1 ∨ r = 0 ∨ r = -1
  released : q'.lock = false
  queued : r = 1 → ∃ op, highest (q.ios tag).flags = some op ∧
    q'.ring.sq = q.ring.sq ++ [prepSqe q tag op] ∧ (q'.ios tag).flags = {} ∧
    q'.tgtIoInflight = wrapInt (q.tgtIoInflight - 1)
  nothing : r = 0 ∨ r = -1 → q'.ring.sq = q.ring.sq ∧ q'.ios = q.ios ∧
    q'.tgtIoInflight = q.tgtIoInflight ∧ q'.lock = q.lock

def canIssue (q : Memory) (tag : ℕ) : Bool := (queuedOp q tag .fill).isSome

theorem canIssue_iff : canIssue q tag = true ↔
    (∃ op, neededOp (q.ios tag).flags = some op) ∧ q.ring.sq.length < q.ring.sqEntries := by
  simp only [canIssue, queuedOp]
  split_ifs with hr
  · simp [hr, Option.isSome_iff_exists]
  · simp [hr]

theorem highest_of_neededOp {f : IoFlags} {op : IoCmdOp} (h : neededOp f = some op) :
    highest f = some op := by
  obtain ⟨fetch, commit, free, getData⟩ := f
  cases free
  · cases h
  · cases getData <;> cases commit <;> cases fetch <;> exact h

theorem effect_iff {r : ℤ} (h : ublksrvQueueIoCmd q tag = some (r, q')) :
    Effect q tag r q' ↔ canIssue q tag = true := by
  rw [canIssue_iff]
  rw [ublksrvQueueIoCmd_eq] at h
  have hl : ¬ q.lock = true := by
    intro hl
    rw [if_pos hl] at h
    cases h
  rw [if_neg hl] at h
  cases hn : neededOp (q.ios tag).flags with
  | none =>
    simp only [hn, Option.some.injEq, Prod.mk.injEq] at h
    obtain ⟨rfl, rfl⟩ := h
    constructor
    · intro he
      cases he.released
    · rintro ⟨⟨op, hop⟩, -⟩
      cases hop
  | some op =>
    simp only [hn] at h
    split_ifs at h with hr hc
    · cases h
      constructor
      · intro he
        cases he.released
      · rintro ⟨-, hlt⟩
        omega
    · cases h
      constructor
      · intro _
        exact ⟨⟨op, rfl⟩, by omega⟩
      · intro _
        refine ⟨.inl rfl, rfl, ?_, by omega⟩
        intro _
        exact ⟨op, highest_of_neededOp hn, rfl, setFlags_flags_self _ _ _, rfl⟩

theorem ublksrvQueueIoCmd_isSome (hl : q.lock = false) (hm : q.tgtIoInflight = 1 → q.condMutex = false) :
    (ublksrvQueueIoCmd q tag).isSome = true := by
  rw [ublksrvQueueIoCmd_eq, hl]
  cases neededOp (q.ios tag).flags with
  | none => rfl
  | some op =>
    simp only [Bool.false_eq_true, ↓reduceIte]
    split_ifs with hr hc
    · rfl
    · rw [hm hc.1] at hc
      cases hc.2
    · rfl

def State.filling (s : State) : Act → Option ℕ
  | .thread =>
    match s.thread.pc with
    | .getData tag .fill => some tag
    | _ => none
  | .task i _ => s.tasks[i]?.bind fun t => if t.pc.call = some .fill then some t.tag else none
  | _ => none

def Issues (s : State) (a : Act) : Bool := (s.filling a).all (canIssue s.mem)

theorem CallStep.released (h : CallStep q tag pc q' pc') (hc : pc.locked = true → q.lock = true)
    (hi : pc = .fill → canIssue q tag = true) :
    pc'.locked.toNat + q.lock.toNat = pc.locked.toNat + q'.lock.toNat := by
  cases h with
  | lock hl => simp [IoCmdPc.locked, hl]
  | noWork hn =>
    obtain ⟨⟨op, hop⟩, -⟩ := canIssue_iff.mp (hi rfl)
    rw [hn] at hop
    cases hop
  | noSqe op hn hr =>
    have := (canIssue_iff.mp (hi rfl)).2
    omega
  | unlock => simp [IoCmdPc.locked, hc rfl]
  | _ => simp [IoCmdPc.locked, filled, setFlags, setIo]

theorem CallStep.leaks (h : CallStep q tag .fill q' pc') (hi : canIssue q tag = false) :
    q' = q ∧ pc'.locked = false := by
  cases h with
  | noWork => exact ⟨rfl, rfl⟩
  | noSqe => exact ⟨rfl, rfl⟩
  | fill op hn hr =>
    rw [canIssue_iff.mpr ⟨⟨op, hn⟩, hr⟩] at hi
    cases hi

theorem TaskStep.released {t t' : Task} {failed : Bool} {ev : List Event}
    (h : TaskStep q t failed q' t' ev) (hc : t.locked = true → q.lock = true)
    (hi : t.pc.call = some .fill → canIssue q t.tag = true) :
    t'.locked.toNat + q.lock.toNat = t.locked.toNat + q'.lock.toNat := by
  cases h with
  | failCall q' pc pc' hp hcall | call q' pc pc' hp hcall =>
    simp only [Task.locked, TaskPc.call, Task.called, hp, Option.any_some, Option.some.injEq] at hc hi ⊢
    exact hcall.released hc hi
  | verdict hp => cases failed <;> simp [Task.locked, TaskPc.call, hp]
  | _ => simp_all [Task.locked, TaskPc.call, IoCmdPc.locked, ublksrvMarkIoDone, setIo]

theorem TaskStep.leaks {t t' : Task} {failed : Bool} {ev : List Event}
    (h : TaskStep q t failed q' t' ev) (hp : t.pc.call = some .fill) (hi : canIssue q t.tag = false) :
    q' = q ∧ t.locked = true ∧ t'.locked = false := by
  cases h with
  | failCall q' pc pc' hpc hcall | call q' pc pc' hpc hcall =>
    simp only [hpc, TaskPc.call, Option.some.injEq] at hp
    subst hp
    obtain ⟨hq, hl⟩ := hcall.leaks hi
    refine ⟨hq, ?_, ?_⟩
    · simp [Task.locked, TaskPc.call, hpc, IoCmdPc.locked]
    · simpa [Task.locked, TaskPc.call, Task.called] using hl
  | _ => simp_all [TaskPc.call]

theorem locked_of_lockers (hl : lockers s = s.mem.lock.toNat) (h : 0 < lockers s) : s.mem.lock = true := by
  cases hm : s.mem.lock
  · rw [hl, hm] at h
    cases h
  · rfl

theorem lockers_issues (hl : lockers s = s.mem.lock.toNat) (hc : Issues s a = true) (h : Step s a s') :
    lockers s' = s'.mem.lock.toNat := by
  cases h with
  | task i t failed q' t' ev hi hs =>
    have hcount := List.countP_set_of_get (b := t') (p := Task.locked) hi
    have hrel := hs.released
      (fun ht => locked_of_lockers hl (by
        have := List.countP_pos_of_get hi ht
        simp only [lockers]
        omega))
      (fun hp => by simpa [Issues, State.filling, hi, hp] using hc)
    simp only [lockers] at hl ⊢
    omega
  | getData tag q' pc pc' hpc hcall =>
    have hrel := hcall.released
      (fun ht => locked_of_lockers hl (by simp [lockers, ThreadPc.call, hpc, ht]))
      (fun hp => by
        subst hp
        simpa [Issues, State.filling, hpc] using hc)
    simp only [lockers, State.goto, ThreadPc.call, hpc, Option.any_some] at hl ⊢
    omega
  | request tag rid hpc =>
    simpa [lockers, State.goto, ThreadPc.call, hpc, List.countP_append, Task.locked, TaskPc.call] using hl
  | getDataRet tag r hpc =>
    simpa [lockers, State.goto, ThreadPc.call, hpc, IoCmdPc.locked] using hl
  | reapGetData i c iod hpc hcq =>
    simpa [lockers, State.goto, State.taken, ThreadPc.call, hpc, IoCmdPc.locked, setFlags, setIo] using hl
  | reapOther i c res iod hpc hcq ho hg =>
    simpa [lockers, State.taken, ThreadPc.call, hpc, setFlags, setIo] using hl
  | _ => simp_all [lockers, State.goto, State.taken, afterReap, ThreadPc.call]

theorem lockers_issues_reach {C : State → Act → Prop} (hC : ∀ s a, C s a → Issues s a = true)
    (h : (machine info).Reach C s) : lockers s = s.mem.lock.toNat := by
  induction h with
  | init hi =>
    obtain ⟨qId, buf, mem, q, hq, rfl⟩ := hi
    simp [lockers, start, ThreadPc.call, (ublksrvQueueInit_initialised hq).lock]
  | step _ hc hs ih => exact lockers_issues ih (hC _ _ hc) (step_cases hs)

def LockFree (s : State) : Prop := lockers s = 0 → s.mem.lock = false

theorem lockFree_iff_issues (hl : lockers s = s.mem.lock.toNat) (h : Step s a s') :
    LockFree s' ↔ Issues s a = true := by
  constructor
  · intro hfree
    by_contra hi
    cases hf : s.filling a with
    | none => simp [Issues, hf] at hi
    | some tag =>
      have hcan : canIssue s.mem tag = false := by simpa [Issues, hf] using hi
      have hleak : s'.mem = s.mem ∧ lockers s' + 1 = lockers s := by
        cases h with
        | task i t failed q' t' ev hg hs =>
          simp only [State.filling, hg, Option.bind_some] at hf
          split_ifs at hf with hp
          cases hf
          obtain ⟨rfl, ht, ht'⟩ := hs.leaks hp hcan
          have hcount := List.countP_set_of_get (b := t') (p := Task.locked) hg
          rw [ht, ht'] at hcount
          refine ⟨rfl, ?_⟩
          simp only [lockers]
          simp only [Bool.toNat_true, Bool.toNat_false] at hcount
          omega
        | getData tag' q' pc pc' hpc hcall =>
          simp only [State.filling, hpc] at hf
          split at hf
          · rename_i heq
            cases heq
            cases hf
            obtain ⟨rfl, hl'⟩ := hcall.leaks hcan
            refine ⟨rfl, ?_⟩
            simp only [lockers, State.goto, ThreadPc.call, hpc, Option.any_some, hl']
            rfl
          · cases hf
        | _ => simp_all [State.filling]
      obtain ⟨hmem, hcount⟩ := hleak
      have hone := Bool.toNat_le s.mem.lock
      have htaken := locked_of_lockers hl (by omega)
      have hfalse := hfree (by omega)
      rw [hmem, htaken] at hfalse
      cases hfalse
  · intro hi hz
    have hl' := lockers_issues hl hi h
    rw [hz] at hl'
    simpa using hl'.symm

/-- The thread that takes the step `a` is inside the call for `tag`, at `pc`. -/
inductive Calls (s : State) (tag : ℕ) (pc : IoCmdPc) : Act → Prop
  | thread : s.thread.pc = .getData tag pc → Calls s tag pc .thread
  | task (i : ℕ) (t : Task) : s.tasks[i]? = some t → t.tag = tag → t.pc.call = some pc →
      Calls s tag pc (.task i false)

theorem Calls.step (h : Calls s tag pc a) (hs : queueIoCmdStep s.mem tag pc = some (q', pc')) :
    ∃ s', Queue.step s a = some s' ∧ Calls s' tag pc' a ∧ s'.mem = q' := by
  have hret : ∀ r, pc ≠ .ret r := by
    rintro r rfl
    cases hs
  cases h with
  | thread hp =>
    have hstep : Queue.step s .thread = some
        { s.goto (.getData tag pc') with
          mem := q'
          getDatas := if pc = .sub then s.getDatas + 1 else s.getDatas
          log := s.log ++ queueEvents s.mem tag none pc } := by
      change threadStep s s.thread.pc = _
      rw [hp]
      cases pc with
      | ret r => exact absurd rfl (hret r)
      | _ => simp [threadStep, hs]
    exact ⟨_, hstep, .thread rfl, rfl⟩
  | task i t hi htag hp =>
    obtain ⟨next, hnext, hcall⟩ : ∃ next : IoCmdPc → TaskPc, t.pc = next pc ∧
        ((next = .failCmd ∨ next = .cmd)) := by
      unfold TaskPc.call at hp
      split at hp
      · rename_i pc₁ heq
        cases hp
        exact ⟨.failCmd, heq, .inl rfl⟩
      · rename_i pc₁ heq
        cases hp
        exact ⟨.cmd, heq, .inr rfl⟩
      · cases hp
    have hlt := (List.getElem?_eq_some_iff.mp hi).1
    have hstep : taskStep s.mem t false = some (q', t.called s.mem pc (next pc'),
        queueEvents s.mem tag (some t.rid) pc) := by
      subst htag
      rcases hcall with rfl | rfl <;> cases pc with
      | ret r => exact absurd rfl (hret r)
      | _ => simp [taskStep, hnext, taskStep.inCall, hs, Task.called]
    have hs' : Queue.step s (.task i false) = some
        { s with
          mem := q'
          tasks := s.tasks.set i (t.called s.mem pc (next pc'))
          log := s.log ++ queueEvents s.mem tag (some t.rid) pc } := by
      simp only [Queue.step, hi, Option.bind_some, hstep]
      rfl
    refine ⟨_, hs', .task i (t.called s.mem pc (next pc')) ?_ htag ?_, rfl⟩
    · exact List.getElem?_set_self hlt
    · rcases hcall with rfl | rfl <;> rfl

def Frees (n : ℕ) (s : State) : Prop :=
  ∃ as s', as.length ≤ n ∧ List.foldlM step s as = some s' ∧ s'.mem.lock = false

theorem Frees.cons {n : ℕ} (hs : Queue.step s a = some s') (h : Frees n s') : Frees (n + 1) s := by
  obtain ⟨as, t, hlen, hrun, hl⟩ := h
  refine ⟨a :: as, t, ?_, ?_, hl⟩
  · simpa using hlen
  · rw [List.foldlM_cons, hs]
    exact hrun

theorem Frees.mono {m n : ℕ} (h : Frees m s) (hmn : m ≤ n) : Frees n s := by
  obtain ⟨as, t, hlen, hrun⟩ := h
  exact ⟨as, t, hlen.trans hmn, hrun⟩

theorem Calls.unlock (h : Calls s tag .unlock a) : Frees 1 s := by
  obtain ⟨s', hs, -, hm⟩ := h.step rfl
  refine Frees.cons hs ⟨[], s', le_refl 0, rfl, ?_⟩
  rw [hm]

theorem Calls.condUnlock (h : Calls s tag .condUnlock a) : Frees 2 s := by
  obtain ⟨s', hs, hc, -⟩ := h.step rfl
  exact .cons hs hc.unlock

theorem Calls.condSignal (h : Calls s tag .condSignal a) : Frees 3 s := by
  obtain ⟨s', hs, hc, -⟩ := h.step rfl
  exact .cons hs hc.condUnlock

theorem Calls.condLock_free (h : Calls s tag .condLock a) (hm : s.mem.condMutex = false) : Frees 4 s := by
  obtain ⟨s', hs, hc, -⟩ := h.step (by simp only [queueIoCmdStep, hm]; rfl)
  exact .cons hs hc.condSignal

theorem Calls.condLock_thread (h : Calls s tag .condLock a) (hl : lockers s ≤ 1)
    (hc : condHolders s = s.mem.condMutex.toNat) (hm : s.mem.condMutex = true) :
    s.thread.pc.condHeld = true ∧ s.thread.pc.call = none := by
  have himp : ∀ t ∈ s.tasks, t.condHeld = true → t.locked = true := by
    intro t _ ht
    simp only [Task.condHeld, Task.locked, Option.any_eq_true] at ht ⊢
    obtain ⟨pc, hpc, hheld⟩ := ht
    refine ⟨pc, hpc, ?_⟩
    cases pc <;> first | rfl | cases hheld
  have hle := List.countP_mono_left himp
  rw [hm] at hc
  simp only [condHolders, Bool.toNat_true] at hc
  simp only [lockers] at hl
  cases h with
  | thread hp =>
    simp only [hp, ThreadPc.condHeld, IoCmdPc.condHeld, Bool.toNat_false] at hc
    simp only [hp, ThreadPc.call, Option.any_some, IoCmdPc.locked, Bool.toNat_true] at hl
    omega
  | task i t hi htag hp =>
    have hadd := List.countP_add_le (p := Task.condHeld)
      (q := fun t => t.pc.call == some .condLock) (r := Task.locked) (l := s.tasks) (by
        intro u hu
        constructor
        · intro hheld
          refine ⟨himp u hu hheld, ?_⟩
          simp only [Task.condHeld, Option.any_eq_true] at hheld
          obtain ⟨pc, hpc, hheld⟩ := hheld
          rw [hpc]
          cases pc <;> first | rfl | cases hheld
        · intro hcall
          simp [Task.locked, beq_iff_eq.mp hcall, IoCmdPc.locked])
    have hpos := List.countP_pos_of_get (p := fun t => t.pc.call == some .condLock) hi (by simp [hp])
    have hheld : s.thread.pc.condHeld = true := by
      cases hh : s.thread.pc.condHeld
      · rw [hh] at hc
        simp only [Bool.toNat_false] at hc
        omega
      · rfl
    refine ⟨hheld, ?_⟩
    cases hcall : s.thread.pc.call with
    | none => rfl
    | some pc =>
      exfalso
      unfold ThreadPc.call at hcall
      split at hcall
      · rename_i tag' pc' heq
        rw [heq] at hheld hl
        simp only [ThreadPc.condHeld] at hheld
        have : pc'.locked = true := by cases pc' <;> first | rfl | cases hheld
        simp only [ThreadPc.call, Option.any_some, this, Bool.toNat_true] at hl
        omega
      · cases hcall

theorem Calls.thread_step (h : Calls s tag pc a) (ht : s.thread.pc.call = none) (htasks : s'.tasks = s.tasks) :
    Calls s' tag pc a := by
  cases h with
  | thread hp =>
    rw [hp] at ht
    cases ht
  | task i t hi htag hp => exact .task i t (htasks ▸ hi) htag hp

theorem Calls.condLock (h : Calls s tag .condLock a) (hl : lockers s ≤ 1)
    (hc : condHolders s = s.mem.condMutex.toNat) : Frees 6 s := by
  cases hm : s.mem.condMutex with
  | false => exact (h.condLock_free hm).mono (by decide)
  | true =>
    obtain ⟨hheld, hcall⟩ := h.condLock_thread hl hc hm
    have release : ∀ {t : State}, Calls t tag .condLock a → t.thread.pc.call = none →
        t.thread.pc = .condWait ∨ t.thread.pc = .unlockCond → Frees 5 t := by
      intro t ht hcall hp
      rcases hp with hp | hp
      · refine .cons (a := .thread) (show threadStep t t.thread.pc = _ by rw [hp]; rfl) ?_
        exact Calls.condLock_free (ht.thread_step hcall rfl) rfl
      · refine .cons (a := .thread) (show threadStep t t.thread.pc = _ by rw [hp]; rfl) ?_
        exact Calls.condLock_free (ht.thread_step hcall rfl) rfl
    unfold ThreadPc.condHeld at hheld
    split at hheld
    · rename_i hp
      refine .cons (a := .thread) (show threadStep s s.thread.pc = _ by rw [hp]; rfl) ?_
      refine release (h.thread_step hcall ?_) ?_ ?_
      · rfl
      · simp only [State.goto]
        split_ifs <;> rfl
      · simp only [State.goto]
        split_ifs
        · exact .inl rfl
        · exact .inr rfl
    · rename_i hp
      exact (release h hcall (.inl hp)).mono (by decide)
    · rename_i hp
      exact (release h hcall (.inr hp)).mono (by decide)
    · rename_i hp
      rw [hp] at hcall
      cases hcall
    · cases hheld

theorem Calls.sub (h : Calls s tag .sub a) (hr : (machine info).Reach Machine.Free s) : Frees 7 s := by
  obtain ⟨s', hs, hc, -⟩ := h.step rfl
  have hr' := hr.step trivial hs
  have hl := (lockers_reach hr').trans (Bool.toNat_le _)
  split_ifs at hc
  · exact .cons hs (hc.condLock hl (condHolders_reach hr'))
  · exact (Frees.cons hs hc.unlock).mono (by decide)

theorem Calls.fill (h : Calls s tag .fill a) (hr : (machine info).Reach Machine.Free s)
    (hi : canIssue s.mem tag = true) : Frees 8 s := by
  obtain ⟨⟨op, hop⟩, hlt⟩ := canIssue_iff.mp hi
  have hcall : queueIoCmdStep s.mem tag .fill = some (filled s.mem tag op, .sub) := by
    simp only [queueIoCmdStep, fillSqe, hop, hlt]
    rfl
  obtain ⟨s', hs, hc, -⟩ := h.step hcall
  exact .cons hs (hc.sub (hr.step trivial hs))

theorem Calls.frees (h : Calls s tag pc a) (hp : pc.locked = true) (hr : (machine info).Reach Machine.Free s)
    (hi : pc = .fill → canIssue s.mem tag = true) : Frees 8 s := by
  have hl := (lockers_reach hr).trans (Bool.toNat_le _)
  cases pc with
  | lock | ret => cases hp
  | fill => exact h.fill hr (hi rfl)
  | sub => exact (h.sub hr).mono (by decide)
  | condLock => exact (h.condLock hl (condHolders_reach hr)).mono (by decide)
  | condSignal => exact h.condSignal.mono (by decide)
  | condUnlock => exact h.condUnlock.mono (by decide)
  | unlock => exact h.unlock.mono (by decide)

theorem exists_calls (h : 0 < lockers s) : ∃ a tag pc, Calls s tag pc a ∧ pc.locked = true := by
  rcases Nat.eq_zero_or_pos (s.tasks.countP Task.locked) with hz | hpos
  · have hthread : s.thread.pc.call.any IoCmdPc.locked = true := by
      simp only [lockers, hz, Nat.zero_add] at h
      cases hany : s.thread.pc.call.any IoCmdPc.locked
      · rw [hany] at h
        cases h
      · rfl
    simp only [Option.any_eq_true] at hthread
    obtain ⟨pc, hpc, hl⟩ := hthread
    unfold ThreadPc.call at hpc
    split at hpc
    · rename_i tag pc' heq
      cases hpc
      exact ⟨.thread, tag, pc, .thread heq, hl⟩
    · cases hpc
  · obtain ⟨t, ht, hl⟩ := List.countP_pos_iff.mp hpos
    obtain ⟨i, hi⟩ := List.mem_iff_getElem?.mp ht
    simp only [Task.locked, Option.any_eq_true] at hl
    obtain ⟨pc, hpc, hl⟩ := hl
    exact ⟨.task i false, t.tag, pc, .task i t hi rfl hpc, hl⟩

theorem Calls.filling (h : Calls s tag .fill a) : s.filling a = some tag := by
  cases h with
  | thread hp => simp [State.filling, hp]
  | task i t hi htag hp => simp [State.filling, hi, hp, htag]

structure LockSafe (s : State) : Prop where
  free : LockFree s
  -- a thread that is about to leave early is a step that does not issue
  freed : (∀ a tag, s.filling a = some tag → canIssue s.mem tag = true) → s.mem.lock = true → Frees 8 s

theorem lockSafe_reach (h : (machine info).Reach (fun s a => Issues s a = true) s) : LockSafe s := by
  have hl := lockers_issues_reach (fun _ _ hc => hc) h
  constructor
  · intro hz
    rw [hz] at hl
    simpa using hl.symm
  · intro hi hlock
    rw [hlock] at hl
    obtain ⟨a, tag, pc, hc, hp⟩ := exists_calls (s := s) (by rw [hl]; decide)
    apply hc.frees hp h.free
    intro hfill
    subst hfill
    exact hi a tag hc.filling

theorem lock_discipline (info : DevInfo) :
    (∀ q tag, q.lock = false → (q.tgtIoInflight = 1 → q.condMutex = false) →
      (ublksrvQueueIoCmd q tag).isSome = true) ∧
    (∀ q tag r q', ublksrvQueueIoCmd q tag = some (r, q') →
      (Effect q tag r q' ↔ canIssue q tag = true)) ∧
    ∀ s, (machine info).Reach (fun s a => Issues s a = true) s →
      LockSafe s ∧ ∀ a s', step s a = some s' → (LockFree s' ↔ Issues s a = true) := by
  refine ⟨fun q tag hl hm => ublksrvQueueIoCmd_isSome hl hm, fun q tag r q' h => effect_iff h, ?_⟩
  intro s h
  refine ⟨lockSafe_reach h, ?_⟩
  intro a s' hs
  exact lockFree_iff_issues (lockers_issues_reach (fun _ _ hc => hc) h) (step_cases hs)

def midCommit : Option State :=
  runFromIf Issues oneTag (deliverRead ++ List.replicate 6 (.task 0 false))

theorem midCommit_runs : midCommit.isSome = true := by decide

/-- The goroutine of a read has queued its commit and holds the lock. -/
theorem lock_discipline_midCommit :
    LockSafe (midCommit.get midCommit_runs) ∧ ∀ a s', step (midCommit.get midCommit_runs) a = some s' →
      (LockFree s' ↔ Issues (midCommit.get midCommit_runs) a = true) :=
  (lock_discipline oneTag).2.2 _ (runFromIf_reach (fun _ _ h => h) (Option.some_get _).symm)

def earlyReturn : Option State := step secondCommit (.task 0 true)

theorem earlyReturn_runs : earlyReturn.isSome = true := by decide

/-- The second commit of a failed read finds the SQ full. -/
theorem lock_leaked : ¬ ∀ info s, (machine info).Reach Machine.Free s → LockSafe s := by
  intro h
  have hr : (machine oneTag).Reach Machine.Free (earlyReturn.get earlyReturn_runs) :=
    .step (a := .task 0 true) secondCommit_reach trivial (Option.some_get _).symm
  exact absurd ((h oneTag _ hr).free (by decide)) (by decide)

end GoUblksrv.Queue
