import GoUblksrv.Queue.Bounds

/-!
What a queue never reads of the memory that `malloc` returned: the slots beyond the depth,
a result that nobody has reported, and `efd` while the queue is not stopping. Every step
commutes with erasing it.
-/

namespace GoUblksrv.Queue

variable {s s' : State} {a : Act} {q q' : Memory} {tag n : ℕ} {pc pc' : IoCmdPc}

def UblkIo.erase (io : UblkIo) : UblkIo :=
  if io.flags.needCommitRqComp then io else { io with result := 0 }

def Memory.erase (n : ℕ) (q : Memory) : Memory :=
  { q with
    efd := -1
    ios := fun i => if i < n then (q.ios i).erase else ⟨{}, 0, 0⟩ }

def State.erase (n : ℕ) (s : State) : State := { s with mem := s.mem.erase n }

theorem UblkIo.erase_flags (io : UblkIo) : io.erase.flags = io.flags := by
  unfold UblkIo.erase
  split_ifs <;> rfl

theorem UblkIo.erase_bufAddr (io : UblkIo) : io.erase.bufAddr = io.bufAddr := by
  unfold UblkIo.erase
  split_ifs <;> rfl

theorem UblkIo.erase_erase (io : UblkIo) : io.erase.erase = io.erase := by
  by_cases h : io.flags.needCommitRqComp = true
  · simp [UblkIo.erase, h]
  · simp [UblkIo.erase, h]

theorem erase_ios (ht : tag < n) : (q.erase n).ios tag = (q.ios tag).erase := by simp [Memory.erase, ht]

theorem erase_flags (ht : tag < n) : ((q.erase n).ios tag).flags = (q.ios tag).flags := by
  rw [erase_ios ht, UblkIo.erase_flags]

theorem needCommit_of_neededOp {f : IoFlags} (h : neededOp f = some .commitAndFetchReq) :
    f.needCommitRqComp = true := by
  unfold neededOp at h
  split_ifs at h with _ _ hc
  · cases h
  · exact hc
  · cases h

theorem prepSqe_erase {op : IoCmdOp} (ht : tag < n) (h : neededOp (q.ios tag).flags = some op) :
    prepSqe (q.erase n) tag op = prepSqe q tag op := by
  have hres : op = .commitAndFetchReq → (q.ios tag).erase = q.ios tag := by
    rintro rfl
    rw [UblkIo.erase, if_pos (needCommit_of_neededOp h)]
  simp only [prepSqe, erase_ios ht, UblkIo.erase_bufAddr]
  by_cases hop : op = .commitAndFetchReq
  · rw [hres hop]
    rfl
  · simp only [if_neg hop]
    rfl

theorem erase_setIo (io : UblkIo) (ht : tag < n) :
    (setIo q tag io).erase n = (setIo (q.erase n) tag io).erase n := by
  simp only [Memory.erase, setIo, Memory.mk.injEq, true_and]
  funext i
  by_cases hi : i = tag
  · subst hi
    simp [ht]
  · simp only [Function.update_of_ne hi]
    split_ifs
    · exact (UblkIo.erase_erase _).symm
    · rfl

theorem erase_setIo_congr {io io' : UblkIo} (h : io.erase = io'.erase) (ht : tag < n) :
    (setIo q tag io).erase n = (setIo (q.erase n) tag io').erase n := by
  rw [erase_setIo io ht]
  simp only [Memory.erase, setIo, Memory.mk.injEq, true_and]
  funext i
  by_cases hi : i = tag
  · subst hi
    simp [ht, h]
  · simp only [Function.update_of_ne hi]

theorem setFlags_erase {f : IoFlags} (ht : tag < n)
    (hf : f.needCommitRqComp = true → (q.ios tag).flags.needCommitRqComp = true) :
    (setFlags q tag f).erase n = (setFlags (q.erase n) tag f).erase n := by
  apply erase_setIo_congr _ ht
  rw [erase_ios ht]
  by_cases hc : f.needCommitRqComp = true
  · rw [UblkIo.erase, UblkIo.erase, if_pos hc, if_pos hc, UblkIo.erase, if_pos (hf hc)]
  · rw [UblkIo.erase, UblkIo.erase, if_neg hc, if_neg hc, UblkIo.erase_bufAddr]

theorem markIoDone_erase (res : Int32) (ht : tag < n) :
    (ublksrvMarkIoDone q tag res).erase n = (ublksrvMarkIoDone (q.erase n) tag res).erase n := by
  apply erase_setIo_congr _ ht
  simp only [erase_ios ht, UblkIo.erase_flags, UblkIo.erase_bufAddr]

theorem erase_erase : (q.erase n).erase n = q.erase n := by
  simp only [Memory.erase, Memory.mk.injEq, true_and]
  funext i
  split_ifs
  · exact UblkIo.erase_erase _
  · rfl

theorem stopUnlessFetch_erase (res : Int32) (ht : tag < n) :
    (stopUnlessFetch q tag res).erase n = (stopUnlessFetch (q.erase n) tag res).erase n := by
  by_cases h : res ≠ ublkIoResAbort ∧ q.stopping = false
  · rw [stopUnlessFetch, if_pos h, stopUnlessFetch, if_pos (show _ ∧ (q.erase n).stopping = false from h),
      erase_erase]
  · rw [stopUnlessFetch, if_neg h, stopUnlessFetch, if_neg (show ¬(_ ∧ (q.erase n).stopping = false) from h),
      erase_flags ht]
    have hset := setFlags_erase (q := q) (f := { (q.ios tag).flags with needFetchRq := false }) ht id
    exact congrArg (fun m : Memory => { m with stopping := true }) hset

theorem filled_erase {op : IoCmdOp} (ht : tag < n) (h : neededOp (q.ios tag).flags = some op) :
    (filled q tag op).erase n = (filled (q.erase n) tag op).erase n := by
  have hset := setFlags_erase (q := q) (f := {}) ht (by simp)
  rw [filled, filled, prepSqe_erase ht h]
  exact congrArg (fun m : Memory =>
    { m with ring := { q.ring with sq := q.ring.sq ++ [prepSqe q tag op] } }) hset

theorem queuedOp_erase (ht : tag < n) (pc : IoCmdPc) : queuedOp (q.erase n) tag pc = queuedOp q tag pc := by
  cases pc with
  | fill =>
    simp only [queuedOp, erase_flags ht]
    rfl
  | _ => rfl

theorem queueEvents_erase (ht : tag < n) (rid : Option ℕ) (pc : IoCmdPc) :
    queueEvents (q.erase n) tag rid pc = queueEvents q tag rid pc := by
  rw [queueEvents, queueEvents, queuedOp_erase ht]
  cases hop : queuedOp q tag pc with
  | none => rfl
  | some op =>
    have hn : neededOp (q.ios tag).flags = some op := by
      cases pc with
      | fill =>
        simp only [queuedOp] at hop
        split_ifs at hop
        exact hop
      | _ => cases hop
    simp only [Option.map_some]
    rw [prepSqe_erase ht hn]

section

variable (n)

@[simp] theorem erase_ring (q : Memory) : (q.erase n).ring = q.ring := rfl

@[simp] theorem erase_lock (q : Memory) : (q.erase n).lock = q.lock := rfl

@[simp] theorem erase_condMutex (q : Memory) : (q.erase n).condMutex = q.condMutex := rfl

@[simp] theorem erase_cond (q : Memory) : (q.erase n).cond = q.cond := rfl

@[simp] theorem erase_stopping (q : Memory) : (q.erase n).stopping = q.stopping := rfl

@[simp] theorem erase_idle (q : Memory) : (q.erase n).idle = q.idle := rfl

@[simp] theorem erase_tgtIoInflight (q : Memory) : (q.erase n).tgtIoInflight = q.tgtIoInflight := rfl

@[simp] theorem erase_ioCmdBuf (q : Memory) : (q.erase n).ioCmdBuf = q.ioCmdBuf := rfl

@[simp] theorem erase_thread (s : State) : (s.erase n).thread = s.thread := rfl

@[simp] theorem erase_mem (s : State) : (s.erase n).mem = s.mem.erase n := rfl

end

theorem lock_step (hl : q.lock = false) :
    queueIoCmdStep q tag .lock = some ({ q with lock := true }, .fill) := by
  simp [queueIoCmdStep, hl]

theorem condLock_step (hm : q.condMutex = false) :
    queueIoCmdStep q tag .condLock = some ({ q with condMutex := true }, .condSignal) := by
  simp [queueIoCmdStep, hm]

theorem noWork_step (hn : neededOp (q.ios tag).flags = none) :
    queueIoCmdStep q tag .fill = some (q, .ret 0) := by
  simp [queueIoCmdStep, fillSqe, hn]

theorem noSqe_step {op : IoCmdOp} (hn : neededOp (q.ios tag).flags = some op)
    (hr : ¬ q.ring.sq.length < q.ring.sqEntries) :
    queueIoCmdStep q tag .fill = some (q, .ret (-1)) := by
  simp [queueIoCmdStep, fillSqe, hn, hr]

theorem fill_step {op : IoCmdOp} (hn : neededOp (q.ios tag).flags = some op)
    (hr : q.ring.sq.length < q.ring.sqEntries) :
    queueIoCmdStep q tag .fill = some (filled q tag op, .sub) := by
  simp [queueIoCmdStep, fillSqe, hn, hr, filled]

section

variable {β : Type} {x y : Option (Memory × β)} {m m' : Memory} {b : β}

theorem erased_of_some (hx : x = some (m, b)) (hy : y = some (m', b)) (h : m.erase n = m'.erase n) :
    x.map (Prod.map (Memory.erase n) id) = y.map (Prod.map (Memory.erase n) id) := by
  rw [hx, hy]
  simp [h]

theorem erased_cases
    (h : x.map (Prod.map (Memory.erase n) id) = y.map (Prod.map (Memory.erase n) id)) :
    (x = none ∧ y = none) ∨
      ∃ m m' b, x = some (m, b) ∧ y = some (m', b) ∧ m.erase n = m'.erase n := by
  cases x with
  | none =>
    cases y with
    | none => exact .inl ⟨rfl, rfl⟩
    | some r => simp at h
  | some l =>
    cases y with
    | none => simp at h
    | some r =>
      simp only [Option.map_some, Option.some.injEq, Prod.map, Prod.mk.injEq, id_eq] at h
      exact .inr ⟨l.1, r.1, l.2, rfl, by rw [h.2], h.1⟩

end

theorem queueIoCmdStep_erase (ht : tag < n) (pc : IoCmdPc) :
    (queueIoCmdStep q tag pc).map (Prod.map (Memory.erase n) id) =
      (queueIoCmdStep (q.erase n) tag pc).map (Prod.map (Memory.erase n) id) := by
  cases pc with
  | lock =>
    cases hl : q.lock with
    | true => simp [queueIoCmdStep, hl]
    | false =>
      refine erased_of_some (lock_step hl) (lock_step hl) ?_
      exact congrArg (fun m : Memory => { m with lock := true }) erase_erase.symm
  | fill =>
    cases hn : neededOp (q.ios tag).flags with
    | none =>
      exact erased_of_some (noWork_step hn) (noWork_step ((erase_flags ht).symm ▸ hn)) erase_erase.symm
    | some op =>
      have hn' : neededOp ((q.erase n).ios tag).flags = some op := (erase_flags ht).symm ▸ hn
      by_cases hr : q.ring.sq.length < q.ring.sqEntries
      · exact erased_of_some (fill_step hn hr) (fill_step hn' hr) (filled_erase ht hn)
      · exact erased_of_some (noSqe_step hn hr) (noSqe_step hn' hr) erase_erase.symm
  | sub =>
    apply erased_of_some rfl rfl
    exact congrArg (fun m : Memory => { m with tgtIoInflight := wrapInt (q.tgtIoInflight - 1) })
      erase_erase.symm
  | condLock =>
    cases hm : q.condMutex with
    | true => simp [queueIoCmdStep, hm]
    | false =>
      refine erased_of_some (condLock_step hm) (condLock_step hm) ?_
      exact congrArg (fun m : Memory => { m with condMutex := true }) erase_erase.symm
  | condSignal =>
    apply erased_of_some rfl rfl
    exact congrArg (fun m : Memory => { m with cond := q.cond.signal }) erase_erase.symm
  | condUnlock =>
    apply erased_of_some rfl rfl
    exact congrArg (fun m : Memory => { m with condMutex := false }) erase_erase.symm
  | unlock =>
    apply erased_of_some rfl rfl
    exact congrArg (fun m : Memory => { m with lock := false }) erase_erase.symm
  | ret r => rfl

theorem settle_erase (h : s.mem.stopping = true → s.mem.efd < 0) : settle (s.erase n) = settle s := by
  cases hs : s.mem.stopping with
  | false =>
    simp only [settle, erase_mem, erase_stopping, hs]
    rfl
  | true =>
    have hefd := h hs
    have hneg : ¬ 0 ≤ s.mem.efd := by omega
    have herased : ¬ 0 ≤ (s.mem.erase n).efd := by
      change ¬ (0 : ℤ) ≤ -1
      decide
    simp [settle, hs, hneg, herased]

theorem afterReap_erase (h : s.mem.stopping = true → s.mem.efd < 0) :
    (afterReap s).erase n = (afterReap (s.erase n)).erase n := by
  rw [afterReap, afterReap, settle_erase h]
  exact congrArg (fun m : Memory => ({ s.goto .processIo with
    mem := { m with idle := (settle s).1 }, log := s.log ++ (settle s).2 } : State)) erase_erase.symm

theorem flags_congr (h : q.erase n = q'.erase n) (ht : tag < n) : (q.ios tag).flags = (q'.ios tag).flags := by
  rw [← erase_flags ht, h, erase_flags ht]

theorem setFlags_congr {f : IoFlags} (h : q.erase n = q'.erase n) (ht : tag < n)
    (hf : f.needCommitRqComp = true → (q.ios tag).flags.needCommitRqComp = true) :
    (setFlags q tag f).erase n = (setFlags q' tag f).erase n := by
  rw [setFlags_erase ht hf, h, ← setFlags_erase ht]
  rw [← flags_congr h ht]
  exact hf

theorem handleCqe_erase (cqe : Cqe) (iod : IoDesc) (ht : (userDataToTag cqe.userData).toNat < n) :
    (ublksrvHandleCqe s cqe iod).erase n = (ublksrvHandleCqe (s.erase n) cqe iod).erase n := by
  have hstop := stopUnlessFetch_erase (q := s.mem) cqe.res ht
  have hflags := flags_congr hstop ht
  simp only [ublksrvHandleCqe, erase_mem]
  split_ifs
  · exact congrArg (fun m : Memory => ({ s with mem := m } : State)) erase_erase.symm
  · exact congrArg (fun m : Memory =>
      ({ s.goto (.onRequest (userDataToTag cqe.userData).toNat s.served) with
          mem :=
            { m with
              ioCmdBuf := Function.update m.ioCmdBuf (userDataToTag cqe.userData).toNat iod }
          served := s.served + 1
          batch := s.batch + 1
          log := s.log ++ [.deliver (userDataToTag cqe.userData).toNat s.served] } : State)) hstop
  · rw [← hflags]
    exact congrArg (fun m : Memory =>
      ({ s.goto (.getData (userDataToTag cqe.userData).toNat .lock) with
          mem := m
          log := s.log ++ [.complete (userDataToTag cqe.userData).toNat] } : State))
      (setFlags_congr hstop ht id)
  · exact congrArg (fun m : Memory =>
      ({ s with mem := m, log := s.log ++ [.complete (userDataToTag cqe.userData).toNat] } : State))
      (setFlags_congr hstop ht (by simp))

theorem isDone_erase : ublksrvQueueIsDone (q.erase n) = ublksrvQueueIsDone q := rfl

theorem map_erase_of_some {u v : State} {x y : Option State} (hx : x = some u) (hy : y = some v)
    (h : u.erase n = v.erase n) : x.map (State.erase n) = y.map (State.erase n) := by
  rw [hx, hy, Option.map_some, Option.map_some, h]

theorem map_erase_of_none {x y : Option State} (hx : x = none) (hy : y = none) :
    x.map (State.erase n) = y.map (State.erase n) := by
  rw [hx, hy]

theorem threadStep_erase (hi : InRange n s) :
    (threadStep s s.thread.pc).map (State.erase n) =
      (threadStep (s.erase n) s.thread.pc).map (State.erase n) := by
  cases hp : s.thread.pc with
  | processIo =>
    cases hd : ublksrvQueueIsDone s.mem with
    | true =>
      refine map_erase_of_some (by simp only [threadStep, hd]; rfl)
        (by simp only [threadStep, erase_mem, isDone_erase, hd]; rfl) ?_
      exact congrArg (fun m : Memory => ({ s.goto .exited with mem := m, log := s.log ++ [.exit] } : State))
        erase_erase.symm
    | false =>
      refine map_erase_of_some (by simp only [threadStep, hd]; rfl)
        (by simp only [threadStep, erase_mem, isDone_erase, hd]; rfl) ?_
      exact congrArg (fun m : Memory =>
        ({ s with mem := m, thread := ⟨.lockCond, s.mem.idle, false, 0⟩ } : State)) erase_erase.symm
  | lockCond =>
    cases hm : s.mem.condMutex with
    | true => simp [threadStep, hm]
    | false =>
      refine map_erase_of_some (by simp only [threadStep, hm]; rfl)
        (by simp only [threadStep, erase_mem, erase_condMutex, hm]; rfl) ?_
      exact congrArg (fun m : Memory =>
        ({ s.goto .loadInflight with mem := { m with condMutex := true } } : State)) erase_erase.symm
  | loadInflight =>
    apply map_erase_of_some rfl rfl
    exact congrArg (fun m : Memory =>
      ({ s.goto (if 0 < s.mem.tgtIoInflight then .condWait else .unlockCond) with mem := m } : State))
      erase_erase.symm
  | condWait =>
    apply map_erase_of_some rfl rfl
    exact congrArg (fun m : Memory =>
      ({ s.goto .blocked with mem := { m with condMutex := false, cond := .asleep } } : State))
      erase_erase.symm
  | blocked =>
    by_cases hw : s.mem.cond = .woken ∧ s.mem.condMutex = false
    · apply map_erase_of_some (if_pos hw) (if_pos hw)
      exact congrArg (fun m : Memory =>
        ({ s.goto .loadInflight with mem := { m with condMutex := true, cond := .none } } : State))
        erase_erase.symm
    · exact map_erase_of_none (if_neg hw) (if_neg hw)
  | unlockCond =>
    apply map_erase_of_some rfl rfl
    exact congrArg (fun m : Memory =>
      ({ s.goto .submit with mem := { m with condMutex := false } } : State)) erase_erase.symm
  | fetchAdd =>
    apply map_erase_of_some rfl rfl
    exact congrArg (fun m : Memory =>
      ({ s.goto .reap with mem := { m with tgtIoInflight := wrapInt (s.mem.tgtIoInflight + 1) } } : State))
      erase_erase.symm
  | getData tag pc =>
    have ht := hi.uses tag (.inl (by simp [hp, ThreadPc.tag?]))
    have hev := queueEvents_erase (q := s.mem) ht none pc
    have inside : ∀ u : State, (∀ r, pc ≠ .ret r) → threadStep u (.getData tag pc) =
        (queueIoCmdStep u.mem tag pc).map fun r =>
          { u.goto (.getData tag r.2) with
            mem := r.1
            getDatas := if pc = .sub then u.getDatas + 1 else u.getDatas
            log := u.log ++ queueEvents u.mem tag none pc } := by
      intro u hne
      cases pc with
      | ret r => exact absurd rfl (hne r)
      | _ => rfl
    by_cases hret : ∃ r, pc = .ret r
    · obtain ⟨r, rfl⟩ := hret
      apply map_erase_of_some rfl rfl
      exact congrArg (fun m : Memory => ({ s.goto .reap with mem := m } : State)) erase_erase.symm
    · have hne : ∀ r, pc ≠ .ret r := fun r he => hret ⟨r, he⟩
      rw [inside s hne, inside _ hne, erase_mem, hev]
      rcases erased_cases (queueIoCmdStep_erase (q := s.mem) ht pc) with
        ⟨hl, hr⟩ | ⟨m, m', pc', hl, hr, he⟩
      · rw [hl, hr]
        rfl
      · rw [hl, hr]
        exact congrArg (fun x : Memory => some ({ s.goto (.getData tag pc') with
          mem := x
          getDatas := if pc = .sub then s.getDatas + 1 else s.getDatas
          log := s.log ++ queueEvents s.mem tag none pc } : State)) he
  | submit | waitCqe | reap | onRequest _ _ | exited => rfl

theorem taskStep_erase {t : Task} {failed : Bool} (ht : t.tag < n) :
    (taskStep q t failed).map (Prod.map (Memory.erase n) id) =
      (taskStep (q.erase n) t failed).map (Prod.map (Memory.erase n) id) := by
  have call : ∀ {pc : IoCmdPc} {k : IoCmdPc → TaskPc},
      (taskStep.inCall q t pc k).map (Prod.map (Memory.erase n) id) =
        (taskStep.inCall (q.erase n) t pc k).map (Prod.map (Memory.erase n) id) := by
    intro pc k
    rw [taskStep.inCall, taskStep.inCall, queuedOp_erase ht, queueEvents_erase ht]
    rcases erased_cases (queueIoCmdStep_erase (q := q) ht pc) with
      ⟨hl, hr⟩ | ⟨m, m', pc', hl, hr, he⟩
    · rw [hl, hr, Option.map_none, Option.map_none]
    · rw [hl, hr]
      simp [he]
  cases hp : t.pc with
  | failMark =>
    apply erased_of_some (by rw [taskStep, hp]) (by rw [taskStep, hp])
    exact markIoDone_erase eio ht
  | mark res =>
    apply erased_of_some (by rw [taskStep, hp]) (by rw [taskStep, hp])
    exact markIoDone_erase res ht
  | failCmd pc =>
    cases pc with
    | ret r => exact erased_of_some (by rw [taskStep, hp]) (by rw [taskStep, hp]) erase_erase.symm
    | _ =>
      simp only [taskStep, hp]
      exact call
  | cmd pc =>
    cases pc with
    | ret r => exact erased_of_some (by rw [taskStep, hp]) (by rw [taskStep, hp]) erase_erase.symm
    | _ =>
      simp only [taskStep, hp]
      exact call
  | finalRes =>
    by_cases ho : t.opType = longhornCmdTypeUnmap
    · exact erased_of_some (by rw [taskStep, hp, if_pos ho]) (by rw [taskStep, hp, if_pos ho]) erase_erase.symm
    · exact erased_of_some (by rw [taskStep, hp, if_neg ho]) (by rw [taskStep, hp, if_neg ho]; rfl)
        erase_erase.symm
  | handling | copyOut | putMsg =>
    exact erased_of_some (by rw [taskStep, hp]) (by rw [taskStep, hp]) erase_erase.symm
  | ended => simp [taskStep, hp]

theorem step_erase (hi : InRange n s) (hefd : s.mem.stopping = true → s.mem.efd < 0) (a : Act) :
    (step s a).map (State.erase n) = (step (s.erase n) a).map (State.erase n) := by
  cases a with
  | thread => exact threadStep_erase hi
  | spurious =>
    by_cases hp : s.thread.pc = .blocked ∧ s.mem.cond = .asleep
    · apply map_erase_of_some (if_pos hp) (if_pos hp)
      exact congrArg (fun m : Memory => ({ s with mem := { m with cond := .woken } } : State)) erase_erase.symm
    · exact map_erase_of_none (if_neg hp) (if_neg hp)
  | submit k =>
    by_cases hp : s.thread.pc = .submit ∧ k ≤ s.mem.ring.sq.length
    · apply map_erase_of_some (if_pos hp) (if_pos hp)
      exact congrArg (fun m : Memory => ({ s.goto (if k = s.mem.ring.sq.length then .waitCqe else .reap) with
        mem := { m with ring := { s.mem.ring with sq := s.mem.ring.sq.drop k } }
        driver := s.driver ++ s.mem.ring.sq.take k
        batch := 0 } : State)) erase_erase.symm
    · exact map_erase_of_none (if_neg hp) (if_neg hp)
  | waitCqe timedOut =>
    by_cases hp : s.thread.pc = .waitCqe ∧ (timedOut = true → s.thread.waitsForever = false)
    · apply map_erase_of_some (if_pos hp) (if_pos hp)
      exact congrArg (fun m : Memory => ({ s with
        mem := m
        thread := { s.thread with pc := .reap, timedOut := timedOut } } : State)) erase_erase.symm
    · exact map_erase_of_none (if_neg hp) (if_neg hp)
  | reap i res iod =>
    by_cases hp : s.thread.pc = .reap
    · cases hc : s.driver[i]? with
      | none => simp [step, hc, State.erase]
      | some c =>
        have htag := (hi.sqes.2 c (List.mem_of_getElem? hc)).1
        refine map_erase_of_some (u := ublksrvHandleCqe (s.taken i) ⟨c.userData, res⟩ iod)
          (v := ublksrvHandleCqe ((s.taken i).erase n) ⟨c.userData, res⟩ iod) ?_ ?_ ?_
        · exact (if_pos hp).trans (congrArg (Option.map _) hc)
        · exact (if_pos hp).trans (congrArg (Option.map _) hc)
        · exact handleCqe_erase _ iod htag
    · exact map_erase_of_none (if_neg hp) (if_neg hp)
  | reapEnd =>
    by_cases hp : s.thread.pc = .reap
    · exact map_erase_of_some (if_pos hp) (if_pos hp) (afterReap_erase hefd)
    · exact map_erase_of_none (if_neg hp) (if_neg hp)
  | onRequest registered =>
    simp only [step, erase_thread]
    cases hp : s.thread.pc with
    | onRequest tag rid =>
      cases registered with
      | true =>
        apply map_erase_of_some rfl rfl
        exact congrArg (fun m : Memory => ({ s.goto .fetchAdd with
          mem := m
          tasks := s.tasks ++
            [⟨rid, tag, reqToLonghornCmdType (s.mem.ioCmdBuf tag), false, .handling, [], 0⟩] } : State))
          erase_erase.symm
      | false =>
        apply map_erase_of_some rfl rfl
        exact congrArg (fun m : Memory =>
          ({ s.goto .fetchAdd with mem := m, dropped := s.dropped + 1 } : State)) erase_erase.symm
    | _ => rfl
  | task i failed =>
    cases ht : s.tasks[i]? with
    | none => simp [step, ht, State.erase]
    | some t =>
      have htag := hi.uses t.tag (.inr ⟨t, List.mem_of_getElem? ht, rfl⟩)
      have htask : (taskStep s.mem t failed).map (Prod.map (Memory.erase n) id) =
          (taskStep (s.mem.erase n) t failed).map (Prod.map (Memory.erase n) id) := taskStep_erase htag
      simp only [step, ht, Option.bind_some]
      change _ = ((s.tasks[i]?.bind fun t => _) : Option State).map _
      rw [ht, Option.bind_some, erase_mem]
      rcases erased_cases htask with ⟨hl, hr⟩ | ⟨m, m', r, hl, hr, he⟩
      · rw [hl, hr]
        rfl
      · rw [hl, hr]
        exact congrArg (fun m : Memory => some ({ s with
          mem := m, tasks := s.tasks.set i r.1, log := s.log ++ r.2 } : State)) he

end GoUblksrv.Queue
