import GoUblksrv.Lib.Access
import GoUblksrv.Queue.Heap
import GoUblksrv.Queue.Shutdown

/-!
The fields of `struct _ublksrv_queue` that each step reads and writes. `io_cmd_buf` is the
pointer: what it points to belongs to the driver.
-/

namespace GoUblksrv.Queue

open Access

variable {s s' : State} {a : Act} {q q' : Memory} {tag n : ℕ} {pc pc' : IoCmdPc}

inductive Field
  | qId
  | qDepth
  | ioCmdBuf
  | tgtIoInflight
  | lock
  | condMutex
  | cond
  | state
  | efd
  | ring
  | bufAddr (tag : ℕ)
  | flags (tag : ℕ)
  | result (tag : ℕ)
  | data (tag : ℕ)

/-- A lock, an atomic counter, a condition variable or a flag word is read and then written. -/
def update (f : Field) : List (Access Field) := [.read f, .write f]

def acquire (f : Field) (taken : Bool) : List (Access Field) := if taken then [.read f] else update f

def fillFootprint (q : Memory) (tag : ℕ) (op : IoCmdOp) : List (Access Field) :=
  update .ring ++ (if op = .commitAndFetchReq then [.read (.result tag)] else []) ++
    [.read .state, .read .state] ++ (if q.userCopy then [] else [.read (.bufAddr tag)]) ++
    [.read .qId, .write (.flags tag)]

def ioCmdFootprint (q : Memory) (tag : ℕ) : IoCmdPc → List (Access Field)
  | .lock => acquire .lock q.lock
  | .fill =>
    .read (.flags tag) ::
      match neededOp (q.ios tag).flags with
      | none => []
      | some op =>
        if q.ring.sq.length < q.ring.sqEntries then fillFootprint q tag op
        else [.read .ring, .read .qId]
  | .sub => update .tgtIoInflight
  | .condLock => acquire .condMutex q.condMutex
  | .condSignal => update .cond
  | .condUnlock => update .condMutex
  | .unlock => update .lock
  | .ret _ => []

def threadFootprint (s : State) : ThreadPc → List (Access Field)
  | .processIo => [.read .state, .read .state] ++ if s.mem.stopping then [.read .ring] else []
  | .lockCond => acquire .condMutex s.mem.condMutex
  | .loadInflight => [.read .tgtIoInflight]
  | .condWait => update .condMutex ++ update .cond
  | .blocked => update .cond ++ update .condMutex
  | .unlockCond => update .condMutex
  | .fetchAdd => update .tgtIoInflight
  | .getData tag pc => ioCmdFootprint s.mem tag pc
  | _ => []

def markFootprint (tag : ℕ) : List (Access Field) := update (.flags tag) ++ [.write (.result tag)]

def taskFootprint (q : Memory) (t : Task) : List (Access Field) :=
  match t.pc with
  | .failMark | .mark _ => markFootprint t.tag
  | .failCmd pc | .cmd pc => ioCmdFootprint q t.tag pc
  | .finalRes => if t.opType = longhornCmdTypeUnmap then [] else [.read (.data t.tag)]
  | _ => []

abbrev eagain : Int32 := -11

def handleCqeFootprint (s : State) (cqe : Cqe) : List (Access Field) :=
  let tag := (userDataToTag cqe.userData).toNat
  (if cqe.res = ublkIoResAbort then [] else [.read .state]) ++
    if isTargetIo cqe.userData then if cqe.res < 0 ∧ cqe.res ≠ eagain then [.read .qId] else []
    else
      (if cqe.res ≠ ublkIoResAbort ∧ s.mem.stopping = false then []
        else update .state ++ update (.flags tag)) ++
        if cqe.res = ublkIoResOk then [.read (.data tag)]
        else if cqe.res = ublkIoResNeedGetData then update (.flags tag)
        else [.write (.flags tag)]

def discardFootprint (q : Memory) : List (Access Field) :=
  .read .qDepth :: (List.range q.qDepth).map fun i => .read (.bufAddr i)

/-- The end of `ublksrv_process_io`: only a stopping queue reads `efd`. -/
def settleFootprint (s : State) : List (Access Field) :=
  .read .state ::
    if s.mem.stopping then [.read .state, .read .efd] ++ if 0 ≤ s.mem.efd then [.read .efd] else []
    else
      (if s.thread.timedOut && s.thread.reapped == 0 then [.read .ring] else []) ++ [.read .state] ++
        if (settle s).1 = s.mem.idle then []
        else (if (settle s).1 then discardFootprint s.mem else []) ++ update .state

def footprint (s : State) : Act → List (Access Field)
  | .thread => threadFootprint s s.thread.pc
  | .spurious => update .cond
  | .submit _ => update .ring
  | .waitCqe _ => []
  | .reap i res _ => update .ring ++ (s.driver[i]?).elim [] fun c => handleCqeFootprint s ⟨c.userData, res⟩
  | .reapEnd => .read .ring :: settleFootprint s
  | .onRequest _ =>
    match s.thread.pc with
    | .onRequest tag _ => [.read (.data tag)]
    | _ => []
  | .task i _ => (s.tasks[i]?).elim [] fun t => taskFootprint s.mem t

def runFootprint (s : State) : List Act → List (Access Field)
  | [] => []
  | a :: as => (step s a).elim [] fun s' => footprint s a ++ runFootprint s' as

/-- What `ublksrv_queue_init` does before `ublksrv_submit_fetch_commands`, for `n` ios. -/
def setupFootprint (info : DevInfo) (n : ℕ) : List (Access Field) :=
  [.write .state] ++ (if info.userCopy then update .state else []) ++
    [.write .qId, .write .qDepth, .write .ioCmdBuf, .read .qDepth, .write .ioCmdBuf, .read .ioCmdBuf] ++
    ((List.range n).flatMap fun i =>
      [.write (.bufAddr i), .read .qDepth, .write (.bufAddr i), .read (.bufAddr i), .write (.flags i),
        .write (.data i), .read .qDepth, .read .ioCmdBuf, .write (.data i)]) ++
    [.write .ring, .read .ring, .read .qDepth]

def Visit.footprint (P : Pthread) (v : Visit) : List (Access Field) :=
  match v.pc with
  | .lock => acquire .lock (P.mutexLock v.heap.words.lock).isNone
  | .condLock => acquire .condMutex (P.mutexLock v.heap.words.condMutex).isNone
  | pc => ioCmdFootprint v.heap.queue v.tag pc

def initFootprint (P : Pthread) (info : DevInfo) (qId : ℕ) (buf : ℕ → UInt64) (h : Heap) :
    List (Access Field) :=
  let h := h.prepared info qId buf
  setupFootprint info info.queueDepth.toNat ++
    (h.fetchVisits P info.queueDepth.toNat).flatMap (Visit.footprint P) ++
    if (h.fetchLoop P info.queueDepth.toNat).isSome then
      [.write .tgtIoInflight, .write .condMutex, .write .cond, .write .lock]
    else []

def setUp (n : ℕ) : Set Field :=
  {f | match f with
    | .flags i | .bufAddr i | .data i => i < n
    | .result _ | .efd => False
    | _ => True}

structure Covered (n : ℕ) (w : Set Field) (s : State) : Prop where
  base : setUp n ⊆ w
  result : ∀ i < n, (s.mem.ios i).flags.needCommitRqComp = true → .result i ∈ w
  efd : .efd ∈ w ∨ n = 0 ∧ s.mem.stopping = false
  depth : s.mem.qDepth = n
  range : InRange n s

section

variable {w : Set Field} {f : Field}

@[simp] theorem readsIn_update {g : Field} : ReadsIn w (update g) ↔ g ∈ w := by simp [update]

@[simp] theorem readsIn_acquire {g : Field} {taken : Bool} : ReadsIn w (acquire g taken) ↔ g ∈ w := by
  cases taken <;> simp [acquire]

theorem ioCmdFootprint_reads (hb : setUp n ⊆ w) (ht : tag < n)
    (hr : (q.ios tag).flags.needCommitRqComp = true → .result tag ∈ w) :
    ReadsIn w (ioCmdFootprint q tag pc) := by
  have hring : Field.ring ∈ w := hb trivial
  have hstate : Field.state ∈ w := hb trivial
  have hqId : Field.qId ∈ w := hb trivial
  have hflags : Field.flags tag ∈ w := hb ht
  have hbuf : Field.bufAddr tag ∈ w := hb ht
  cases pc with
  | fill =>
    rw [ioCmdFootprint, readsIn_read]
    refine ⟨hflags, ?_⟩
    cases hn : neededOp (q.ios tag).flags with
    | none => exact readsIn_nil
    | some op =>
      have hres : op = .commitAndFetchReq → .result tag ∈ w := by
        rintro rfl
        exact hr (needCommit_of_neededOp hn)
      simpa [fillFootprint, hring, hstate, hqId, hbuf] using fun _ => hres
  | lock | condLock => exact readsIn_acquire.mpr (hb trivial)
  | sub | condSignal | condUnlock | unlock => exact readsIn_update.mpr (hb trivial)
  | ret r => exact readsIn_nil

theorem handleCqeFootprint_reads (hb : setUp n ⊆ w) {cqe : Cqe}
    (ht : (userDataToTag cqe.userData).toNat < n) : ReadsIn w (handleCqeFootprint s cqe) := by
  have hstate : Field.state ∈ w := hb trivial
  have hqId : Field.qId ∈ w := hb trivial
  have hflags : Field.flags (userDataToTag cqe.userData).toNat ∈ w := hb ht
  have hdata : Field.data (userDataToTag cqe.userData).toNat ∈ w := hb ht
  simp [handleCqeFootprint, hstate, hqId, hflags, hdata]

theorem settleFootprint_reads (hi : Covered n w s) : ReadsIn w (settleFootprint s) := by
  have hstate : Field.state ∈ w := hi.base trivial
  have hring : Field.ring ∈ w := hi.base trivial
  have hdepth : Field.qDepth ∈ w := hi.base trivial
  have hbuf : ReadsIn w ((List.range s.mem.qDepth).map fun i => .read (.bufAddr i)) := by
    apply readsIn_map
    intro i hlt
    rw [hi.depth, List.mem_range] at hlt
    exact hi.base hlt
  have hefd : s.mem.stopping = true → Field.efd ∈ w := by
    intro hs
    rcases hi.efd with he | ⟨-, hf⟩
    · exact he
    · rw [hs] at hf
      cases hf
  cases hs : s.mem.stopping with
  | true => simp [settleFootprint, hs, hstate, hefd hs]
  | false => simp [settleFootprint, discardFootprint, hs, hstate, hring, hdepth, hbuf]

theorem threadFootprint_reads (hi : Covered n w s) : ReadsIn w (threadFootprint s s.thread.pc) := by
  have hcond : Field.cond ∈ w := hi.base trivial
  have hcondMutex : Field.condMutex ∈ w := hi.base trivial
  have hinflight : Field.tgtIoInflight ∈ w := hi.base trivial
  have hstate : Field.state ∈ w := hi.base trivial
  have hring : Field.ring ∈ w := hi.base trivial
  cases hp : s.thread.pc with
  | getData tag pc =>
    have htag := hi.range.uses tag (.inl (by simp [hp, ThreadPc.tag?]))
    exact ioCmdFootprint_reads hi.base htag (hi.result tag htag)
  | _ => simp [threadFootprint, hcond, hcondMutex, hinflight, hstate, hring]

theorem taskFootprint_reads (hi : Covered n w s) {t : Task} (ht : t ∈ s.tasks) :
    ReadsIn w (taskFootprint s.mem t) := by
  have htag := hi.range.uses t.tag (.inr ⟨t, ht, rfl⟩)
  have hflags : Field.flags t.tag ∈ w := hi.base htag
  have hdata : Field.data t.tag ∈ w := hi.base htag
  have hcall : ∀ pc, ReadsIn w (ioCmdFootprint s.mem t.tag pc) :=
    fun pc => ioCmdFootprint_reads hi.base htag (hi.result t.tag htag)
  cases hp : t.pc <;> simp [taskFootprint, hp, markFootprint, hflags, hdata, hcall]

theorem footprint_reads (hi : Covered n w s) (a : Act) : ReadsIn w (footprint s a) := by
  have hcond : Field.cond ∈ w := hi.base trivial
  have hring : Field.ring ∈ w := hi.base trivial
  cases a with
  | thread => exact threadFootprint_reads hi
  | spurious | submit | waitCqe => simp [footprint, hcond, hring]
  | reap i res iod =>
    cases hc : s.driver[i]? with
    | none => simp [footprint, hc, hring]
    | some c =>
      have hcqe : ReadsIn w (handleCqeFootprint s ⟨c.userData, res⟩) :=
        handleCqeFootprint_reads hi.base (hi.range.sqes.2 c (List.mem_of_getElem? hc)).1
      simpa [footprint, hc, hring] using hcqe
  | reapEnd => simpa [footprint, hring] using settleFootprint_reads hi
  | onRequest registered =>
    simp only [footprint]
    split
    · rename_i tag rid hp
      have hdata : Field.data tag ∈ w := hi.base (hi.range.uses tag (.inl (by simp [hp, ThreadPc.tag?])))
      simpa using hdata
    · exact readsIn_nil
  | task i failed =>
    cases ht : s.tasks[i]? with
    | none => simp [footprint, ht]
    | some t => simpa [footprint, ht] using taskFootprint_reads hi (List.mem_of_getElem? ht)

theorem CallStep.needCommit {i : ℕ} (h : CallStep q tag pc q' pc')
    (hc : (q'.ios i).flags.needCommitRqComp = true) : (q.ios i).flags.needCommitRqComp = true := by
  cases h with
  | fill op =>
    by_cases hi : i = tag
    · subst hi
      simp [filled] at hc
    · simpa [filled, setFlags_flags_ne _ _ _ hi] using hc
  | _ => exact hc

theorem TaskStep.needCommit {t t' : Task} {failed : Bool} {ev : List Event} {i : ℕ}
    (h : TaskStep q t failed q' t' ev) (hc : (q'.ios i).flags.needCommitRqComp = true) :
    (q.ios i).flags.needCommitRqComp = true ∨ .write (.result i) ∈ taskFootprint q t := by
  have marked : ∀ res, (q' = ublksrvMarkIoDone q t.tag res) → taskFootprint q t = markFootprint t.tag →
      (q.ios i).flags.needCommitRqComp = true ∨ .write (.result i) ∈ taskFootprint q t := by
    rintro res rfl hf
    by_cases hi : i = t.tag
    · subst hi
      exact .inr (by simp [hf, markFootprint])
    · rw [markIoDone_flags_ne _ _ _ hi] at hc
      exact .inl hc
  cases h with
  | failMark hp => exact marked _ rfl (by rw [taskFootprint, hp])
  | mark res hp => exact marked _ rfl (by rw [taskFootprint, hp])
  | failCall _ _ _ _ hcall | call _ _ _ _ hcall => exact .inl (hcall.needCommit hc)
  | _ => exact .inl hc

theorem stopUnlessFetch_needCommit (res : Int32) (i : ℕ) :
    ((stopUnlessFetch q tag res).ios i).flags.needCommitRqComp = (q.ios i).flags.needCommitRqComp := by
  rcases stopUnlessFetch_flags q tag res i with h | ⟨-, h⟩
  · rw [h]
  · rw [h]

theorem Step.needCommit {i : ℕ} (h : Step s a s') (hc : (s'.mem.ios i).flags.needCommitRqComp = true) :
    (s.mem.ios i).flags.needCommitRqComp = true ∨ .write (.result i) ∈ footprint s a := by
  cases h with
  | getData _ _ _ _ _ hcall => exact .inl (hcall.needCommit hc)
  | task _ _ _ _ _ _ hg hst =>
    simp only [footprint, hg, Option.elim_some]
    exact hst.needCommit hc
  | reapOk => exact .inl ((stopUnlessFetch_needCommit _ i).symm.trans hc)
  | reapGetData j c =>
    left
    by_cases hi : i = c.tag
    · subst hi
      simpa [stopUnlessFetch_needCommit] using hc
    · simpa [setFlags_flags_ne _ _ _ hi, stopUnlessFetch_needCommit] using hc
  | reapOther j c =>
    left
    by_cases hi : i = c.tag
    · subst hi
      simp at hc
    · simpa [setFlags_flags_ne _ _ _ hi, stopUnlessFetch_needCommit] using hc
  | _ => exact .inl hc

theorem InRange.driver_nil (h : InRange 0 s) : s.driver = [] := by
  apply List.eq_nil_iff_forall_not_mem.mpr
  intro e he
  exact absurd (h.sqes.2 e he).1 (Nat.not_lt_zero _)

theorem Step.stopping_kept (h : Step s a s') (hd : s.driver = []) : s'.mem.stopping = s.mem.stopping := by
  have none_taken : ∀ {i : ℕ} {c : Sqe}, ¬ s.driver[i]? = some c := by simp [hd]
  cases h with
  | getData _ _ _ _ _ hcall => exact hcall.stopping
  | task _ _ _ _ _ _ _ hst => exact hst.stopping
  | reapTarget _ _ _ _ _ hc | reapOk _ _ _ _ hc | reapGetData _ _ _ _ hc | reapOther _ _ _ _ _ hc =>
    exact absurd hc none_taken
  | _ => rfl

theorem covered_step (hn : n ≤ 2 ^ 16) (hi : Covered n w s) (h : Step s a s') :
    Covered n (written w (footprint s a)) s' where
  base := hi.base.trans subset_written
  result i hlt hc := by
    rcases h.needCommit hc with hc | hw
    · exact subset_written (hi.result i hlt hc)
    · exact mem_written.mpr (.inr hw)
  efd := by
    rcases hi.efd with he | ⟨rfl, hf⟩
    · exact .inl (subset_written he)
    · exact .inr ⟨rfl, by rw [h.stopping_kept hi.range.driver_nil, hf]⟩
  depth := h.qDepth.trans hi.depth
  range := inRange_step hn hi.range h

theorem runFootprint_writtenFirst (hn : n ≤ 2 ^ 16) (hi : Covered n w s) (as : List Act) :
    WrittenFirst w (runFootprint s as) := by
  induction as generalizing s w with
  | nil => trivial
  | cons a as ih =>
    cases hs : step s a with
    | none =>
      rw [runFootprint, hs]
      trivial
    | some t =>
      rw [runFootprint, hs, Option.elim_some, writtenFirst_append]
      constructor
      · exact (footprint_reads hi a).writtenFirst
      · exact ih (covered_step hn hi (step_cases hs))

end

variable {P : Pthread} {info : DevInfo} {qId : ℕ} {buf : ℕ → UInt64} {h : Heap}

theorem setUp_written {f : Field} (hf : f ∈ setUp info.queueDepth.toNat)
    (hs : (h.ublksrvQueueInit P info qId buf).isSome = true) : f ∈ written ∅ (initFootprint P info qId buf h) := by
  rw [Heap.ublksrvQueueInit, Option.isSome_map] at hs
  apply mem_written.mpr
  right
  simp only [initFootprint, hs, if_true, List.mem_append]
  cases f with
  | efd | result => exact absurd hf id
  | lock | tgtIoInflight | condMutex | cond => exact .inr (by simp)
  | flags i | bufAddr i | data i =>
    have hi : i < info.queueDepth.toNat := hf
    exact .inl (.inl (by simp [setupFootprint, hi]))
  | _ => exact .inl (.inl (by simp [setupFootprint]))

theorem covered_start {w : Set Field} (hc : wrapInt h.queue.tgtIoInflight = h.queue.tgtIoInflight)
    (hq : h.ublksrvQueueInit P info qId buf = some q) (hw : written ∅ (initFootprint P info qId buf h) ⊆ w)
    (hefd : .efd ∈ w ∨ info.queueDepth.toNat = 0) : Covered info.queueDepth.toNat w (start q) := by
  have hinit := ublksrvQueueInit_initialised (queueInit_memory hc hq)
  constructor
  · intro f hf
    exact hw (setUp_written hf (by rw [hq]; rfl))
  · intro i hlt hcommit
    rw [start, hinit.flags i hlt] at hcommit
    cases hcommit
  · exact hefd.imp id fun h0 => ⟨h0, hinit.stopping⟩
  · exact ublksrvQueueInit_qDepth (queueInit_memory hc hq)
  · exact inRange_start hinit

theorem fetchVisits_head (h : Heap) (k : ℕ) : ∃ l, h.fetchVisits P (k + 1) = ⟨h, 0, .lock⟩ :: l := by
  induction k with
  | zero => exact ⟨_, rfl⟩
  | succ k ih =>
    obtain ⟨l, hl⟩ := ih
    rw [Heap.fetchVisits, hl]
    exact ⟨_, rfl⟩

/-- Whatever the driver and the handlers do, no field is read before the queue has written it. -/
def AllWrittenFirst (P : Pthread) (info : DevInfo) (qId : ℕ) (buf : ℕ → UInt64) (h : Heap) : Prop :=
  ∀ as, WrittenFirst ∅ (initFootprint P info qId buf h ++
    (h.ublksrvQueueInit P info qId buf).elim [] fun q => runFootprint (start q) as)

theorem not_allWrittenFirst (hn : info.queueDepth.toNat ≠ 0) : ¬ AllWrittenFirst P info qId buf h := by
  intro hall
  obtain ⟨k, hk⟩ := Nat.exists_eq_succ_of_ne_zero hn
  obtain ⟨l, hl⟩ := fetchVisits_head (P := P) (h.prepared info qId buf) k
  have hlock : ∃ m, Visit.footprint P ⟨h.prepared info qId buf, 0, .lock⟩ = .read .lock :: m := by
    simp only [Visit.footprint, acquire, update]
    split_ifs
    · exact ⟨_, rfl⟩
    · exact ⟨_, rfl⟩
  obtain ⟨m, hm⟩ := hlock
  have hinit := (writtenFirst_append.mp (hall [])).1
  simp only [initFootprint, hk, Nat.succ_eq_add_one, hl, List.flatMap_cons, hm, List.append_assoc,
    List.cons_append] at hinit
  have hfree : .write .lock ∉ setupFootprint info (k + 1) := by
    simp only [setupFootprint, update]
    split_ifs <;> simp
  exact hinit.head hfree

theorem allWrittenFirst_iff (hc : wrapInt h.queue.tgtIoInflight = h.queue.tgtIoInflight) :
    AllWrittenFirst P info qId buf h ↔ info.queueDepth.toNat = 0 := by
  constructor
  · intro hall
    by_contra hn
    exact not_allWrittenFirst hn hall
  · intro h0 as
    rw [writtenFirst_append]
    constructor
    · simp only [initFootprint, h0, Heap.fetchVisits, Heap.fetchLoop, setupFootprint, update]
      cases info.userCopy <;> simp [WrittenFirst]
    · cases hq : h.ublksrvQueueInit P info qId buf with
      | none => trivial
      | some q =>
        have hcov := covered_start hc hq subset_rfl (.inr h0)
        exact runFootprint_writtenFirst info.queueDepth.toNat_lt.le hcov as

theorem runFootprint_efd (hc : wrapInt h.queue.tgtIoInflight = h.queue.tgtIoInflight)
    (hq : h.ublksrvQueueInit P info qId buf = some q) (as : List Act) :
    WrittenFirst (insert .efd (written ∅ (initFootprint P info qId buf h))) (runFootprint (start q) as) :=
  runFootprint_writtenFirst info.queueDepth.toNat_lt.le
    (covered_start hc hq (Set.subset_insert _ _) (.inl (Set.mem_insert _ _))) as

end GoUblksrv.Queue
