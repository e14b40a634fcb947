import GoUblksrv.Queue.Footprint

namespace GoUblksrv.Queue

variable {info : DevInfo} {qId : ℕ} {buf : ℕ → UInt64} {mem₁ mem₂ q q₁ q₂ : Memory} {n : ℕ}
  {s s' : State} {a : Act} {fd : ℤ}

/-- `ublksrv_kill_eventfd` does nothing in this queue, nor in any that it becomes. -/
structure Quiet (n : ℕ) (s : State) : Prop where
  range : InRange n s
  efd : s.mem.efd < 0 ∨ n = 0 ∧ s.mem.stopping = false

theorem Quiet.stopped (h : Quiet n s) (hs : s.mem.stopping = true) : s.mem.efd < 0 := by
  rcases h.efd with he | ⟨-, hf⟩
  · exact he
  · rw [hs] at hf
    cases hf

theorem quiet_step (hn : n ≤ 2 ^ 16) (hi : Quiet n s) (h : Step s a s') : Quiet n s' := by
  refine ⟨inRange_step hn hi.range h, ?_⟩
  rcases hi.efd with he | ⟨rfl, hf⟩
  · exact .inl (h.efd ▸ he)
  · exact .inr ⟨rfl, by rw [h.stopping_kept hi.range.driver_nil, hf]⟩

theorem queueEvents_writeFd {tag : ℕ} {rid : Option ℕ} {pc : IoCmdPc} :
    .writeFd fd ∉ queueEvents q tag rid pc := by
  simp [queueEvents]

theorem TaskStep.writeFd {q' : Memory} {t t' : Task} {failed : Bool} {ev : List Event}
    (h : TaskStep q t failed q' t' ev) : .writeFd fd ∉ ev := by
  cases h with
  | failCall | call => exact queueEvents_writeFd
  | copyOut => split_ifs <;> simp
  | _ => simp

theorem settle_writeFd (h : .writeFd fd ∈ (settle s).2) : s.mem.stopping = true ∧ 0 ≤ s.mem.efd := by
  simp only [settle] at h
  split_ifs at h <;> simp_all

theorem Step.writeFd (h : Step s a s') (hm : .writeFd fd ∈ s'.log) :
    .writeFd fd ∈ s.log ∨ s.mem.stopping = true ∧ 0 ≤ s.mem.efd := by
  cases h with
  | getData => exact .inl ((List.mem_append.mp hm).resolve_right queueEvents_writeFd)
  | task _ _ _ _ _ _ _ hst => exact .inl ((List.mem_append.mp hm).resolve_right hst.writeFd)
  | done | reapOk | reapGetData | reapOther =>
    exact .inl ((List.mem_append.mp hm).resolve_right (by simp))
  | reapEnd =>
    rcases List.mem_append.mp hm with hm | hm
    · exact .inl hm
    · exact .inr (settle_writeFd hm)
  | _ => exact .inl hm

theorem quiet_writeFd {as : List Act} (hn : n ≤ 2 ^ 16) (hi : Quiet n s) (hl : .writeFd fd ∉ s.log)
    (h : (machine info).run s as = some s') : .writeFd fd ∉ s'.log := by
  have hinv : Quiet n s' ∧ .writeFd fd ∉ s'.log := by
    refine Machine.run_invariant (I := fun t => Quiet n t ∧ .writeFd fd ∉ t.log) ?_ ⟨hi, hl⟩ h
    intro t b t' ht hs
    have hst := step_cases hs
    refine ⟨quiet_step hn ht.1 hst, fun hm => ?_⟩
    rcases hst.writeFd hm with hm | ⟨hstop, hefd⟩
    · exact ht.2 hm
    · have := ht.1.stopped hstop
      omega
  exact hinv.2

structure Observed where
  thread : Thread
  tasks : List Task
  driver : List Sqe
  sq : List Sqe
  lock : Bool
  condMutex : Bool
  cond : Waiter
  tgtIoInflight : ℤ
  stopping : Bool
  log : List Event

def State.observed (s : State) : Observed where
  thread := s.thread
  tasks := s.tasks
  driver := s.driver
  sq := s.mem.ring.sq
  lock := s.mem.lock
  condMutex := s.mem.condMutex
  cond := s.mem.cond
  tgtIoInflight := s.mem.tgtIoInflight
  stopping := s.mem.stopping
  log := s.log

theorem run_erase (hn : n ≤ 2 ^ 16) {t : State} (hs : Quiet n s) (ht : Quiet n t)
    (h : s.erase n = t.erase n) (as : List Act) :
    ((machine info).run s as).map (State.erase n) = ((machine info).run t as).map (State.erase n) := by
  refine Machine.run_congr (I := Quiet n) (fun u b v hu hst => quiet_step hn hu (step_cases hst)) ?_ as hs ht h
  intro u v b hu hv huv
  change (step u b).map _ = (step v b).map _
  rw [step_erase hu.range hu.stopped, huv, ← step_erase hv.range hv.stopped]

theorem run_observed (hn : n ≤ 2 ^ 16) {t : State} (hs : Quiet n s) (ht : Quiet n t)
    (h : s.erase n = t.erase n) (as : List Act) :
    ((machine info).run s as).map State.observed = ((machine info).run t as).map State.observed := by
  have hobs : State.observed = State.observed ∘ State.erase n := rfl
  rw [hobs, ← Option.map_map, ← Option.map_map, run_erase hn hs ht h]

theorem prepSqe_prepared {i : ℕ} (hi : i < info.queueDepth.toNat) :
    prepSqe (prepared info qId buf mem₁) i .fetchReq = prepSqe (prepared info qId buf mem₂) i .fetchReq := by
  simp [prepSqe, prepared, hi]

theorem initLocks_erase (hb : mem₁.ioCmdBuf = mem₂.ioCmdBuf) (w₁ w₂ : Waiter) :
    (initLocks (fetched (prepared info qId buf mem₁) info.queueDepth.toNat w₁)).erase info.queueDepth.toNat =
      (initLocks (fetched (prepared info qId buf mem₂) info.queueDepth.toNat w₂)).erase
        info.queueDepth.toNat := by
  have hsq :
      ((List.range info.queueDepth.toNat).map fun i => prepSqe (prepared info qId buf mem₁) i .fetchReq) =
      (List.range info.queueDepth.toNat).map fun i => prepSqe (prepared info qId buf mem₂) i .fetchReq := by
    apply List.map_congr_left
    intro i hi
    exact prepSqe_prepared (List.mem_range.mp hi)
  simp only [Memory.erase, initLocks, fetched, Memory.mk.injEq, true_and]
  refine ⟨rfl, rfl, hb, rfl, rfl, rfl, rfl, ?_, ?_⟩
  · rw [hsq]
    rfl
  · funext i
    by_cases hi : i < info.queueDepth.toNat
    · simp [hi, UblkIo.erase, prepared]
    · simp [hi]

section

variable {P : Pthread} {h h₁ h₂ : Heap} {w w₁ w₂ : Words} {c c₁ c₂ : ℤ} {k : ℕ}

theorem start_erase (hb : h₁.queue.ioCmdBuf = h₂.queue.ioCmdBuf)
    (hc₁ : wrapInt h₁.queue.tgtIoInflight = h₁.queue.tgtIoInflight)
    (hc₂ : wrapInt h₂.queue.tgtIoInflight = h₂.queue.tgtIoInflight)
    (hq₁ : h₁.ublksrvQueueInit P info qId buf = some q₁)
    (hq₂ : h₂.ublksrvQueueInit P info qId buf = some q₂) :
    (start q₁).erase info.queueDepth.toNat = (start q₂).erase info.queueDepth.toNat := by
  have herase : q₁.erase info.queueDepth.toNat = q₂.erase info.queueDepth.toNat := by
    rw [queueInit_some hc₁ hq₁, queueInit_some hc₂ hq₂]
    exact initLocks_erase hb _ _
  have hring := congrArg Memory.ring herase
  simp only [erase_ring] at hring
  simp only [State.erase, start, herase, hring]

theorem quiet_start (hc : wrapInt h.queue.tgtIoInflight = h.queue.tgtIoInflight)
    (hefd : info.queueDepth.toNat = 0 ∨ h.queue.efd < 0)
    (hq : h.ublksrvQueueInit P info qId buf = some q) : Quiet info.queueDepth.toNat (start q) := by
  have hinit := ublksrvQueueInit_initialised (queueInit_memory hc hq)
  have hqe : q.efd = h.queue.efd := by rw [queueInit_some hc hq]; rfl
  constructor
  · exact inRange_start hinit
  · rcases hefd with h0 | hefd
    · exact .inr ⟨h0, hinit.stopping⟩
    · exact .inl (hqe.trans_lt hefd)

end

def abortFirst (n : ℕ) : List Act :=
  [.thread, .thread, .thread, .thread] ++
    [.submit n, .waitCqe false, .reap 0 ublkIoResAbort ⟨0, 0, 0, 0⟩, .reapEnd]

theorem run_toSubmit (h : Initialised info q) :
    (machine info).run (start q) [.thread, .thread, .thread, .thread] =
      some { start q with thread := ⟨.submit, q.idle, false, 0⟩ } := by
  have hdone : ublksrvQueueIsDone q = false := by simp [ublksrvQueueIsDone, h.stopping]
  have hm := h.condMutex
  have hc := h.inflight
  simp only [Machine.run_cons, machine, step, start, threadStep, State.goto, hdone, hm, hc, Option.bind_some,
    Machine.run_nil, Bool.false_eq_true, if_false, lt_irrefl]
  cases q
  cases hm
  cases hc
  rfl

theorem reap_abort {i : ℕ} {c : Sqe} (iod : IoDesc) (hp : s.thread.pc = .reap) (hc : s.driver[i]? = some c)
    (hio : isTargetIo c.userData = false) : ∃ t, step s (.reap i ublkIoResAbort iod) = some t ∧
      t.thread.pc = .reap ∧ t.mem.stopping = true ∧ t.mem.efd = s.mem.efd := by
  have hstep : step s (.reap i ublkIoResAbort iod) =
      some (ublksrvHandleCqe (s.taken i) ⟨c.userData, ublkIoResAbort⟩ iod) :=
    (if_pos hp).trans (congrArg (Option.map _) hc)
  have hok : ¬ ublkIoResAbort = ublkIoResOk := by decide
  have hget : ¬ ublkIoResAbort = ublkIoResNeedGetData := by decide
  refine ⟨_, hstep, ?_⟩
  simp only [ublksrvHandleCqe, hio, Bool.false_eq_true, if_false, if_neg hok, if_neg hget]
  refine ⟨hp, ?_, congrArg Setup.efd (stopUnlessFetch_setup _ _ _)⟩
  exact (stopUnlessFetch_stopping _ _ _).trans (by simp)

theorem reapEnd_writeFd (hp : s.thread.pc = .reap) (hs : s.mem.stopping = true) (hefd : 0 ≤ s.mem.efd) :
    ∃ t, step s .reapEnd = some t ∧ .writeFd s.mem.efd ∈ t.log :=
  ⟨_, if_pos hp, by simp [afterReap, settle, hs, hefd]⟩

theorem submit_all (hp : s.thread.pc = .submit) (hd : s.driver = []) (hlen : n = s.mem.ring.sq.length) :
    ∃ t u, step s (.submit n) = some t ∧ step t (.waitCqe false) = some u ∧ u.thread.pc = .reap ∧
      u.driver = s.mem.ring.sq ∧ u.mem.efd = s.mem.efd := by
  refine ⟨_, _, if_pos ⟨hp, hlen.le⟩, if_pos ⟨if_pos hlen, by simp⟩, rfl, ?_, rfl⟩
  simp [hd, hlen]

theorem run_abortFirst (hn : 0 < info.queueDepth.toNat) (hefd : 0 ≤ q.efd) (h : Initialised info q) :
    ∃ s, (machine info).run (start q) (abortFirst info.queueDepth.toNat) = some s ∧
      .writeFd q.efd ∈ s.log := by
  have hlen : q.ring.sq.length = info.queueDepth.toNat := by simpa using congrArg List.length h.tags
  obtain ⟨c, l, hsq⟩ : ∃ c l, q.ring.sq = c :: l := List.exists_cons_of_length_pos (by omega)
  obtain ⟨t, t', ht, ht', hp, hd, he⟩ :=
    submit_all (s := { start q with thread := ⟨.submit, q.idle, false, 0⟩ }) rfl rfl hlen.symm
  have hfirst : t'.driver[0]? = some c := by
    rw [hd]
    exact congrArg (fun l : List Sqe => l[0]?) hsq
  obtain ⟨u, hu, hup, hus, hue⟩ := reap_abort ⟨0, 0, 0, 0⟩ hp hfirst (h.driverIo c (by simp [hsq]))
  have hueq : u.mem.efd = q.efd := hue.trans he
  obtain ⟨v, hv, hw⟩ := reapEnd_writeFd hup hus (by rw [hueq]; exact hefd)
  refine ⟨v, ?_, hueq ▸ hw⟩
  rw [abortFirst, Machine.run_append, run_toSubmit h, Option.bind_some]
  simp only [Machine.run_cons, Machine.run_nil, machine, ht, ht', hu, hv, Option.bind_some]

/-- `process_io` writes to no descriptor: the queue opens none but its ring. -/
def OwnDescriptors (P : Pthread) (info : DevInfo) (qId : ℕ) (buf : ℕ → UInt64) (h : Heap) : Prop :=
  ∀ q as s fd, h.ublksrvQueueInit P info qId buf = some q →
    (machine info).run (start q) as = some s → .writeFd fd ∉ s.log

/-- Two initialisations do the same, and so do the queues that they return. -/
structure Alike (P : Pthread) (info : DevInfo) (qId : ℕ) (buf : ℕ → UInt64) (h₁ h₂ : Heap) : Prop where
  init : (h₁.prepared info qId buf).fetchTrace P info.queueDepth.toNat =
    (h₂.prepared info qId buf).fetchTrace P info.queueDepth.toNat
  returned : (h₁.ublksrvQueueInit P info qId buf).isSome = (h₂.ublksrvQueueInit P info qId buf).isSome
  runs : ∀ q₁ q₂ as, h₁.ublksrvQueueInit P info qId buf = some q₁ →
    h₂.ublksrvQueueInit P info qId buf = some q₂ →
    ((machine info).run (start q₁) as).map State.observed =
      ((machine info).run (start q₂) as).map State.observed
  own₁ : OwnDescriptors P info qId buf h₁
  own₂ : OwnDescriptors P info qId buf h₂

/-- Some round of the fetch loop takes the counter from 1 to 0. -/
def Crosses (n : ℕ) (c : ℤ) : Prop := 1 ≤ c ∧ c ≤ n

structure Unaffected (n : ℕ) (h₁ h₂ : Heap) : Prop where
  lock : h₁.words.lock = h₂.words.lock
  cond : Crosses n h₁.queue.tgtIoInflight ∨ Crosses n h₂.queue.tgtIoInflight →
    h₁.queue.tgtIoInflight = h₂.queue.tgtIoInflight ∧ h₁.words = h₂.words
  efd₁ : h₁.queue.efd < 0
  efd₂ : h₂.queue.efd < 0

section

variable {P : Pthread} {h h₁ h₂ : Heap} {w w₁ w₂ : Words} {c c₁ c₂ : ℤ} {k : ℕ} {pc : IoCmdPc}

theorem ownDescriptors (hc : wrapInt h.queue.tgtIoInflight = h.queue.tgtIoInflight)
    (hefd : info.queueDepth.toNat = 0 ∨ h.queue.efd < 0) : OwnDescriptors P info qId buf h := by
  intro q as s fd hq hrun
  exact quiet_writeFd info.queueDepth.toNat_lt.le (quiet_start hc hefd hq) (by simp [start]) hrun

theorem OwnDescriptors.efd (ho : OwnDescriptors P info qId buf h) (hn : 0 < info.queueDepth.toNat)
    (hc : wrapInt h.queue.tgtIoInflight = h.queue.tgtIoInflight)
    (hq : h.ublksrvQueueInit P info qId buf = some q) : h.queue.efd < 0 := by
  have hqe : q.efd = h.queue.efd := by rw [queueInit_some hc hq]; rfl
  by_contra hefd
  obtain ⟨s, hs, hw⟩ :=
    run_abortFirst hn (show 0 ≤ q.efd by omega) (ublksrvQueueInit_initialised (queueInit_memory hc hq))
  exact ho q _ s _ hq hs hw

theorem last_free (hc : ¬ Crosses n c) (hk : k < n) : decide (c = k + 1) = false := by
  apply decide_eq_false
  intro h
  exact hc ⟨by omega, by omega⟩

theorem call_lock : (w.call P false).map Words.lock = (P.mutexLock w.lock).bind P.mutexUnlock := by
  cases hl : P.mutexLock w.lock with
  | none => simp [Words.call, hl]
  | some m =>
    cases hu : P.mutexUnlock m with
    | none => simp [Words.call, Words.unlock, hl, hu]
    | some m' => simp [Words.call, Words.unlock, hl, hu]

theorem callPcs_lock (h : w₁.lock = w₂.lock) : w₁.callPcs P false = w₂.callPcs P false := by
  simp [Words.callPcs, Words.unlockPcs, h]

/-- Without a crossing no round looks at more than the lock. -/
theorem rounds_lock (h : w₁.lock = w₂.lock) (hc₁ : ¬ Crosses n c₁) (hc₂ : ¬ Crosses n c₂)
    (hk : k ≤ n) :
    (w₁.rounds P c₁ k).map Words.lock = (w₂.rounds P c₂ k).map Words.lock := by
  induction k with
  | zero => exact congrArg some h
  | succ k ih =>
    have step : ∀ x : Option Words, (x.bind (Words.call P false)).map Words.lock =
        (x.map Words.lock).bind fun m => (P.mutexLock m).bind P.mutexUnlock := by
      intro x
      cases x with
      | none => rfl
      | some w => exact call_lock
    rw [Words.rounds, Words.rounds, last_free hc₁ (by omega), last_free hc₂ (by omega), step, step,
      ih (by omega)]

theorem roundPcs_congr {x₁ x₂ : Option Words} (h : x₁.map Words.lock = x₂.map Words.lock) :
    x₁.elim [] (Words.callPcs P false) = x₂.elim [] (Words.callPcs P false) := by
  cases x₁ with
  | none =>
    cases x₂ with
    | none => rfl
    | some w => cases h
  | some w =>
    cases x₂ with
    | none => cases h
    | some w' => exact callPcs_lock (Option.some.inj h)

theorem fetchTrace_prepared (hc : wrapInt h.queue.tgtIoInflight = h.queue.tgtIoInflight) :
    (h.prepared info qId buf).fetchTrace P info.queueDepth.toNat =
      (List.range info.queueDepth.toNat).flatMap fun i =>
        ((h.words.rounds P h.queue.tgtIoInflight i).elim []
          (Words.callPcs P (h.queue.tgtIoInflight = i + 1))).map
            (seenAt i (prepSqe (prepared info qId buf h.queue) i .fetchReq)) :=
  fetchTrace_rounds (fetchable_prepared hc) le_rfl

theorem fetchTrace_congr (hc₁ : wrapInt h₁.queue.tgtIoInflight = h₁.queue.tgtIoInflight)
    (hc₂ : wrapInt h₂.queue.tgtIoInflight = h₂.queue.tgtIoInflight)
    (h : Unaffected info.queueDepth.toNat h₁ h₂) :
    (h₁.prepared info qId buf).fetchTrace P info.queueDepth.toNat =
      (h₂.prepared info qId buf).fetchTrace P info.queueDepth.toNat := by
  rw [fetchTrace_prepared hc₁, fetchTrace_prepared hc₂]
  apply List.flatMap_congr
  intro i hi
  have hlt := List.mem_range.mp hi
  have hsqe : prepSqe (prepared info qId buf h₁.queue) i .fetchReq =
      prepSqe (prepared info qId buf h₂.queue) i .fetchReq := prepSqe_prepared hlt
  rw [hsqe]
  congr 1
  by_cases hx : Crosses info.queueDepth.toNat h₁.queue.tgtIoInflight ∨
      Crosses info.queueDepth.toNat h₂.queue.tgtIoInflight
  · obtain ⟨hcount, hwords⟩ := h.cond hx
    rw [hcount, hwords]
  · rw [not_or] at hx
    rw [last_free hx.1 hlt, last_free hx.2 hlt]
    exact roundPcs_congr (rounds_lock h.lock hx.1 hx.2 hlt.le)

theorem returned_congr (h : Unaffected n h₁ h₂) :
    (h₁.words.rounds P h₁.queue.tgtIoInflight n).isSome =
      (h₂.words.rounds P h₂.queue.tgtIoInflight n).isSome := by
  by_cases hx : Crosses n h₁.queue.tgtIoInflight ∨ Crosses n h₂.queue.tgtIoInflight
  · obtain ⟨hcount, hwords⟩ := h.cond hx
    rw [hcount, hwords]
  · rw [not_or] at hx
    have hlock := congrArg Option.isSome (rounds_lock (P := P) h.lock hx.1 hx.2 le_rfl)
    simpa using hlock

theorem Unaffected.alike (hb : h₁.queue.ioCmdBuf = h₂.queue.ioCmdBuf)
    (hc₁ : wrapInt h₁.queue.tgtIoInflight = h₁.queue.tgtIoInflight)
    (hc₂ : wrapInt h₂.queue.tgtIoInflight = h₂.queue.tgtIoInflight)
    (h : info.queueDepth.toNat = 0 ∨ Unaffected info.queueDepth.toNat h₁ h₂) (P : Pthread) :
    Alike P info qId buf h₁ h₂ := by
  have he₁ := h.imp id Unaffected.efd₁
  have he₂ := h.imp id Unaffected.efd₂
  constructor
  · rcases h with h0 | h
    · rw [h0]
      rfl
    · exact fetchTrace_congr hc₁ hc₂ h
  · rw [queueInit_isSome hc₁, queueInit_isSome hc₂]
    rcases h with h0 | h
    · rw [h0]
      rfl
    · exact returned_congr h
  · intro q₁ q₂ as hq₁ hq₂
    exact run_observed info.queueDepth.toNat_lt.le (quiet_start hc₁ he₁ hq₁) (quiet_start hc₂ he₂ hq₂)
      (start_erase hb hc₁ hc₂ hq₁ hq₂) as
  · exact ownDescriptors hc₁ he₁
  · exact ownDescriptors hc₂ he₂

/-- Round `k` is reached and goes through `pc`. -/
def CallReaches (P : Pthread) (h : Heap) (k : ℕ) (pc : IoCmdPc) : Prop :=
  ∃ w, h.words.rounds P h.queue.tgtIoInflight k = some w ∧ pc ∈ w.callPcs P (h.queue.tgtIoInflight = k + 1)

theorem callReaches_iff (qId : ℕ) (buf : ℕ → UInt64)
    (hc : wrapInt h.queue.tgtIoInflight = h.queue.tgtIoInflight) (hk : k < info.queueDepth.toNat) :
    CallReaches P h k pc ↔
      seenAt k (prepSqe (prepared info qId buf h.queue) k .fetchReq) pc ∈
        (h.prepared info qId buf).fetchTrace P info.queueDepth.toNat := by
  rw [fetchTrace_prepared hc, List.mem_flatMap]
  constructor
  · rintro ⟨w, hw, hpc⟩
    refine ⟨k, List.mem_range.mpr hk, List.mem_map.mpr ⟨pc, ?_, rfl⟩⟩
    rw [hw]
    exact hpc
  · rintro ⟨i, -, hi⟩
    obtain ⟨pc', hpc, heq⟩ := List.mem_map.mp hi
    obtain rfl : i = k := congrArg Seen.tag heq
    obtain rfl : pc' = pc := congrArg Seen.pc heq
    cases hw : h.words.rounds P h.queue.tgtIoInflight i with
    | none =>
      rw [hw] at hpc
      cases hpc
    | some w =>
      rw [hw] at hpc
      exact ⟨w, hw, hpc⟩

theorem Alike.reaches (h : Alike P info qId buf h₁ h₂)
    (hc₁ : wrapInt h₁.queue.tgtIoInflight = h₁.queue.tgtIoInflight)
    (hc₂ : wrapInt h₂.queue.tgtIoInflight = h₂.queue.tgtIoInflight) (hk : k < info.queueDepth.toNat)
    (pc : IoCmdPc) : CallReaches P h₁ k pc ↔ CallReaches P h₂ k pc := by
  have hsqe : prepSqe (prepared info qId buf h₁.queue) k .fetchReq =
      prepSqe (prepared info qId buf h₂.queue) k .fetchReq := prepSqe_prepared hk
  rw [callReaches_iff qId buf hc₁ hk, callReaches_iff qId buf hc₂ hk, h.init, hsqe]

/-- A library whose `pthread_mutex_lock` does not return on one content, and only there. -/
def Pthread.holding (m : PthreadMutex) : Pthread :=
  { Pthread.returning with mutexLock := fun m' => if m' = m then none else some m' }

/-- The same of `pthread_cond_signal`. -/
def Pthread.deaf (c : PthreadCond) : Pthread :=
  { Pthread.returning with condSignal := fun c' => if c' = c then none else some c' }

theorem callReaches_of_rounds (hr : h.words.rounds P h.queue.tgtIoInflight k = some w) :
    CallReaches P h k pc ↔ pc ∈ w.callPcs P (h.queue.tgtIoInflight = k + 1) := by
  simp [CallReaches, hr]

theorem callReaches_fill {m : PthreadMutex} : CallReaches (.holding m) h 0 .fill ↔ h.words.lock ≠ m := by
  have hr : h.words.rounds (.holding m) h.queue.tgtIoInflight 0 = some h.words := rfl
  rw [callReaches_of_rounds hr]
  by_cases hm : h.words.lock = m
  · simp [Words.callPcs, Pthread.holding, hm]
  · simp [Words.callPcs, Pthread.holding, hm]

theorem callReaches_condLock : CallReaches .returning h k .condLock ↔ h.queue.tgtIoInflight = k + 1 := by
  rw [callReaches_of_rounds (rounds_returning _ _ _)]
  by_cases hc : h.queue.tgtIoInflight = k + 1
  · simp [Words.callPcs, Words.signalPcs, Pthread.returning, hc]
  · simp [Words.callPcs, Words.unlockPcs, Pthread.returning, hc]

/-- A lock that returns unchanged takes the loop to the round that signals. -/
theorem rounds_until (hl : P.mutexLock w.lock = some w.lock) (hu : P.mutexUnlock w.lock = some w.lock)
    (hk : k < c) : w.rounds P c k = some w := by
  induction k with
  | zero => rfl
  | succ k ih =>
    have hlast : ¬ c = k + 1 := by omega
    rw [Words.rounds, ih (by omega), Option.bind_some, decide_eq_false hlast]
    simp [Words.call, Words.unlock, hl, hu]

theorem callReaches_condSignal {m : PthreadMutex} (hl : h.words.lock ≠ m) (hk : h.queue.tgtIoInflight = k + 1) :
    CallReaches (.holding m) h k .condSignal ↔ h.words.condMutex ≠ m := by
  have hlock : (Pthread.holding m).mutexLock h.words.lock = some h.words.lock := if_neg hl
  rw [callReaches_of_rounds (rounds_until hlock rfl (by omega)), decide_eq_true hk, Words.callPcs, hlock]
  by_cases hm : h.words.condMutex = m
  · simp [Words.signalPcs, Pthread.holding, hm]
  · simp [Words.signalPcs, Pthread.holding, Pthread.returning, hm]

theorem callReaches_condUnlock {c : PthreadCond} (hk : h.queue.tgtIoInflight = k + 1) :
    CallReaches (.deaf c) h k .condUnlock ↔ h.words.cond ≠ c := by
  rw [callReaches_of_rounds (rounds_until rfl rfl (by omega)), decide_eq_true hk]
  by_cases hc : h.words.cond = c
  · simp [Words.callPcs, Words.signalPcs, Pthread.deaf, Pthread.returning, hc]
  · simp [Words.callPcs, Words.signalPcs, Pthread.deaf, Pthread.returning, hc]

end

theorem eq_of_refused {α : Type} {l a b : α} (h : ∀ m, m ≠ l → (a ≠ m ↔ b ≠ m)) : a = b := by
  by_contra hab
  by_cases ha : a = l
  · exact absurd rfl ((h b (fun hb => hab (ha.trans hb.symm))).mp hab)
  · exact absurd rfl ((h a ha).mpr (Ne.symm hab))

section

variable {h₁ h₂ : Heap}

/-- Each part of `Unaffected` is asked for by a library that stops at one content and nowhere else. -/
theorem unaffected_of_alike (h : ∀ P, Alike P info qId buf h₁ h₂) (hn : 0 < info.queueDepth.toNat)
    (hc₁ : wrapInt h₁.queue.tgtIoInflight = h₁.queue.tgtIoInflight)
    (hc₂ : wrapInt h₂.queue.tgtIoInflight = h₂.queue.tgtIoInflight) :
    Unaffected info.queueDepth.toNat h₁ h₂ := by
  have hlock : h₁.words.lock = h₂.words.lock := by
    by_contra hne
    have hreach := (h (.holding h₂.words.lock)).reaches hc₁ hc₂ hn .fill
    rw [callReaches_fill, callReaches_fill] at hreach
    exact absurd rfl (hreach.mp hne)
  have hcount : ∀ k < info.queueDepth.toNat,
      h₁.queue.tgtIoInflight = k + 1 ↔ h₂.queue.tgtIoInflight = k + 1 := by
    intro k hk
    rw [← callReaches_condLock, ← callReaches_condLock]
    exact (h .returning).reaches hc₁ hc₂ hk .condLock
  have hefd : ∀ g : Heap, wrapInt g.queue.tgtIoInflight = g.queue.tgtIoInflight →
      OwnDescriptors .returning info qId buf g → g.queue.efd < 0 := by
    intro g hc ho
    have hsome : (g.ublksrvQueueInit .returning info qId buf).isSome = true := by
      rw [queueInit_isSome hc, rounds_returning]
      rfl
    obtain ⟨q, hq⟩ := Option.isSome_iff_exists.mp hsome
    exact ho.efd hn hc hq
  refine ⟨hlock, fun hx => ?_, hefd h₁ hc₁ (h .returning).own₁, hefd h₂ hc₂ (h .returning).own₂⟩
  obtain ⟨k, hk, hk₁, hk₂⟩ : ∃ k : ℕ, k < info.queueDepth.toNat ∧
      h₁.queue.tgtIoInflight = k + 1 ∧ h₂.queue.tgtIoInflight = k + 1 := by
    rcases hx with ⟨h1, hle⟩ | ⟨h1, hle⟩
    · obtain ⟨k, hk⟩ : ∃ k : ℕ, h₁.queue.tgtIoInflight = k + 1 :=
        ⟨(h₁.queue.tgtIoInflight - 1).toNat, by omega⟩
      exact ⟨k, by omega, hk, (hcount k (by omega)).mp hk⟩
    · obtain ⟨k, hk⟩ : ∃ k : ℕ, h₂.queue.tgtIoInflight = k + 1 :=
        ⟨(h₂.queue.tgtIoInflight - 1).toNat, by omega⟩
      exact ⟨k, by omega, (hcount k (by omega)).mpr hk, hk⟩
  have hmutex : h₁.words.condMutex = h₂.words.condMutex := by
    apply eq_of_refused
    intro m hm
    rw [← callReaches_condSignal hm.symm hk₁, ← callReaches_condSignal (hlock ▸ hm.symm) hk₂]
    exact (h (.holding m)).reaches hc₁ hc₂ hk .condSignal
  have hcond : h₁.words.cond = h₂.words.cond := by
    by_contra hne
    have hreach := (h (.deaf h₂.words.cond)).reaches hc₁ hc₂ hk .condUnlock
    rw [callReaches_condUnlock hk₁, callReaches_condUnlock hk₂] at hreach
    exact absurd rfl (hreach.mp hne)
  refine ⟨hk₁.trans hk₂.symm, ?_⟩
  cases hw : h₁.words
  cases hw' : h₂.words
  simp_all

end

theorem alike_iff (info : DevInfo) (qId : ℕ) (buf : ℕ → UInt64) (h₁ h₂ : Heap)
    (hb : h₁.queue.ioCmdBuf = h₂.queue.ioCmdBuf)
    (hc₁ : wrapInt h₁.queue.tgtIoInflight = h₁.queue.tgtIoInflight)
    (hc₂ : wrapInt h₂.queue.tgtIoInflight = h₂.queue.tgtIoInflight) :
    ((∀ P, Alike P info qId buf h₁ h₂) ↔
      info.queueDepth.toNat = 0 ∨ Unaffected info.queueDepth.toNat h₁ h₂) ∧
    ∀ P, AllWrittenFirst P info qId buf h₁ ↔ info.queueDepth.toNat = 0 := by
  refine ⟨⟨fun h => ?_, Unaffected.alike hb hc₁ hc₂⟩, fun P => allWrittenFirst_iff hc₁⟩
  rcases Nat.eq_zero_or_pos info.queueDepth.toNat with h0 | hn
  · exact .inl h0
  · exact .inr (unaffected_of_alike h hn hc₁ hc₂)

def zeroedHeap : Heap := ⟨{ zeroed with efd := -7 }, ⟨0, 0, 0⟩⟩

def harmless : Heap := ⟨{ zeroed with efd := -1, tgtIoInflight := 5 }, ⟨0, 1, 1⟩⟩

theorem alike_iff_harmless :
    ((∀ P, Alike P oneTag 0 (fun _ => 0) zeroedHeap harmless) ↔
      oneTag.queueDepth.toNat = 0 ∨ Unaffected oneTag.queueDepth.toNat zeroedHeap harmless) ∧
    ∀ P, AllWrittenFirst P oneTag 0 (fun _ => 0) zeroedHeap ↔ oneTag.queueDepth.toNat = 0 :=
  alike_iff oneTag 0 (fun _ => 0) zeroedHeap harmless rfl (by decide) (by decide)

/-- A mutex of the default kind: its first 32 bits are zero while it is free. -/
def Pthread.default : Pthread where
  mutexLock m := if m.setWidth 32 = 0 then some (m ||| 1) else none
  mutexUnlock m := some (m &&& ~~~1)
  condSignal := some

/-- A queue of depth 1, in zeroed pages and in memory where the lock looks taken. -/
theorem not_alike : ¬ ∀ (P : Pthread) (info : DevInfo) (qId : ℕ) (buf : ℕ → UInt64) (h₁ h₂ : Heap),
    h₁.queue.ioCmdBuf = h₂.queue.ioCmdBuf →
    wrapInt h₁.queue.tgtIoInflight = h₁.queue.tgtIoInflight →
    wrapInt h₂.queue.tgtIoInflight = h₂.queue.tgtIoInflight →
    Alike P info qId buf h₁ h₂ ∧ AllWrittenFirst P info qId buf h₁ := by
  intro h
  have halike :=
    (h .default oneTag 0 (fun _ => 0) ⟨zeroed, ⟨0, 0, 0⟩⟩ ⟨zeroed, ⟨1, 0, 0⟩⟩ rfl (by decide) (by decide)).1
  exact absurd halike.returned (by decide +kernel)

end GoUblksrv.Queue
