import GoUblksrv.Device.Actors
import GoUblksrv.Queue.Capacity

/-!
The indices and the private areas of a daemon, from the arguments of `Start` to the memory
that `demo_handle_io_async` addresses: the table of queues, the `ios` slots, and what the
allocation of `ublksrv_queue_init` leaves for one io.
-/

namespace GoUblksrv.Queue

variable {s s' : State} {a : Act} {q q' : Memory} {info : DevInfo} {C : State → Act → Prop}

abbrev defQd : ℤ := 128
abbrev maxNrHwQueues : ℕ := 32
abbrev sizeofLong : UInt32 := 8
abbrev sizeofUblkIoTgt : ℕ := 8
abbrev sizeofLonghornIoData : ℕ := 8

/-- `queue_depth` of the composite literal of `startupC`. -/
def startupDepth (depth : ℤ) : UInt16 := .ofNat (if depth ≤ 0 then defQd else depth).toNat

/-- `dev_info` after `ADD_DEV`: the driver has no more queues than there are CPUs. -/
def addedDev (queues : ℤ) (cpus : ℕ) : Device.CtrlDevInfo :=
  let info := Device.ublksrvCtrlInit (Device.startupData queues)
  { info with nrHwQueues := min info.nrHwQueues cpus }

/-- The ids that `demo_null_io_handler` hands to its threads. -/
def queueIds (info : Device.CtrlDevInfo) : List ℕ := List.range info.nrHwQueues

def roundUp (val rnd : UInt32) : UInt32 := (val + (rnd - 1)) &&& ~~~(rnd - 1)

/-- `tgt.io_data_size` of a structure from `calloc`, which nothing sets. -/
abbrev tgtIoDataSize : UInt32 := 0

def ioDataSize : ℕ := (roundUp tgtIoDataSize sizeofLong).toNat

/-- Where `io_tgt_to_longhorn_data` ends. -/
def addressed : ℕ := sizeofUblkIoTgt + sizeofLonghornIoData

/-- The command is for the tag in its user data, and that tag has a slot. -/
def Sqe.Within (n : ℕ) (e : Sqe) : Prop := e.tag < n ∧ e.cmd.tag = e.tag

structure InRange (n : ℕ) (s : State) : Prop where
  sqes : s.Sqes (Sqe.Within n)
  uses : ∀ tag, s.Uses tag → tag < n

theorem Step.uses {n : ℕ} (hi : InRange n s) (h : Step s a s') : ∀ tag, s'.Uses tag → tag < n := by
  have keep : ∀ {u : State}, (∀ tag ∈ u.thread.pc.tag?, tag < n) →
      (∀ t ∈ u.tasks, ∃ v ∈ s.tasks, t.tag = v.tag) → ∀ tag, u.Uses tag → tag < n := by
    intro u hp ht tag hu
    rcases hu with hu | ⟨t, hm, rfl⟩
    · exact hp tag hu
    · obtain ⟨v, hv, he⟩ := ht t hm
      exact he ▸ hi.uses v.tag (.inr ⟨v, hv, rfl⟩)
  have same : ∀ t ∈ s.tasks, ∃ v ∈ s.tasks, t.tag = v.tag := fun t ht => ⟨t, ht, rfl⟩
  have thread : ∀ tag ∈ s.thread.pc.tag?, tag < n := fun tag ht => hi.uses tag (.inl ht)
  cases h with
  | task i t failed q' t' ev hg hst =>
    apply keep
    · exact thread
    · apply List.forall_mem_set same
      exact ⟨t, List.mem_of_getElem? hg, hst.tag_eq⟩
  | getData tag q' pc pc' hpc hcall =>
    apply keep
    · simpa [State.goto, ThreadPc.tag?, hpc] using thread
    · exact same
  | reapOk i c iod hpc hc | reapGetData i c iod hpc hc =>
    apply keep
    · simpa [State.goto, ThreadPc.tag?] using (hi.sqes.2 c (List.mem_of_getElem? hc)).1
    · exact same
  | request tag rid hpc =>
    rintro tag' (hu | ⟨t, hm, rfl⟩)
    · simp [State.goto, ThreadPc.tag?] at hu
    · rcases List.mem_append.mp hm with hm | hm
      · exact hi.uses t.tag (.inr ⟨t, hm, rfl⟩)
      · rw [List.mem_singleton.mp hm]
        exact thread tag (by simp [hpc, ThreadPc.tag?])
  | reapTarget _ _ _ _ hpc | reapOther _ _ _ _ hpc =>
    apply keep
    · simp [State.taken, ThreadPc.tag?, hpc]
    · exact same
  | spurious hpc =>
    apply keep
    · simp [ThreadPc.tag?, hpc]
    · exact same
  | _ =>
    apply keep
    · simp [State.goto, afterReap, ThreadPc.tag?]
    · exact same

theorem prepSqe_within {tag n : ℕ} (q : Memory) (op : IoCmdOp) (ht : tag < n) (hn : n ≤ 2 ^ 16) :
    (prepSqe q tag op).Within n := by
  have htag := prepSqe_tag q op (show tag < 2 ^ 16 by omega)
  constructor
  · rw [htag]
    exact ht
  · rw [htag]
    rfl

theorem inRange_step {n : ℕ} (hn : n ≤ 2 ^ 16) (hi : InRange n s) (h : Step s a s') : InRange n s' := by
  constructor
  · apply h.sqes _ hi.sqes
    intro tag op hu
    exact prepSqe_within _ op (hi.uses tag hu) hn
  · exact h.uses hi

theorem inRange_start (h : Initialised info q) : InRange info.queueDepth.toNat (start q) := by
  constructor
  · constructor
    · intro e he
      have htag : e.tag ∈ List.range info.queueDepth.toNat := h.tags ▸ List.mem_map_of_mem he
      constructor
      · exact List.mem_range.mp htag
      · exact (List.map_inj_left.mp (h.cmdTags.trans h.tags.symm)) e he
    · simp [start]
  · rintro tag (hu | ⟨t, ht, -⟩)
    · simp [start, ThreadPc.tag?] at hu
    · simp [start] at ht

theorem inRange_reach (h : (machine info).Reach C s) : InRange info.queueDepth.toNat s := by
  have hn := info.queueDepth.toNat_lt
  refine h.invariant ?_ fun s a s' _ hi _ hs => inRange_step hn.le hi (step_cases hs)
  rintro t ⟨qId, buf, mem, q, hq, rfl⟩
  exact inRange_start (ublksrvQueueInit_initialised hq)

theorem qDepth_reach (h : (machine info).Reach C s) : s.mem.qDepth = info.queueDepth.toNat := by
  induction h with
  | init hi =>
    obtain ⟨qId, buf, mem, q, hq, rfl⟩ := hi
    exact ublksrvQueueInit_qDepth hq
  | step _ _ hs ih => rw [(step_cases hs).qDepth, ih]

/-- The queues of a daemon, each somewhere in its own run. -/
def Daemon (dev : Device.CtrlDevInfo) (info : DevInfo) (σ : ℕ → State) : Prop :=
  ∀ qid ∈ queueIds dev, (machine info).Reach Machine.Free (σ qid) ∧ (σ qid).mem.qId = qid

structure InBounds (dev : Device.CtrlDevInfo) (info : DevInfo) (σ : ℕ → State) : Prop where
  queues : ∀ qid ∈ queueIds dev, qid < maxNrHwQueues
  tags : ∀ qid ∈ queueIds dev, (σ qid).Sqes fun e =>
    (userDataToTag e.userData).toNat < (σ qid).mem.qDepth ∧
      ((userDataToTag e.userData).toNat : ℤ) < (ublksrvCalculateDepths (ublksrvDevInit info)).nrIos
  areas : ∀ qid ∈ queueIds dev, ∀ rid < (σ qid).served, addressed ≤ ioDataSize

def startedInfo (info : DevInfo) (depth : ℤ) : DevInfo := { info with queueDepth := startupDepth depth }

theorem inBounds_iff (queues depth : ℤ) (cpus : ℕ) (info : DevInfo) (σ : ℕ → State)
    (h : Daemon (addedDev queues cpus) (startedInfo info depth) σ) :
    InBounds (addedDev queues cpus) (startedInfo info depth) σ ↔
      (addedDev queues cpus).nrHwQueues ≤ maxNrHwQueues ∧
        ∀ qid ∈ queueIds (addedDev queues cpus), (σ qid).served = 0 := by
  have harea : ¬ addressed ≤ ioDataSize := by decide
  constructor
  · intro hb
    constructor
    · by_contra hn
      have hlt := hb.queues maxNrHwQueues (List.mem_range.mpr (by omega))
      exact absurd hlt (lt_irrefl _)
    · intro qid hq
      by_contra hs
      exact harea (hb.areas qid hq 0 (Nat.pos_of_ne_zero hs))
  · rintro ⟨hnr, hserved⟩
    constructor
    · intro qid hq
      exact (List.mem_range.mp hq).trans_le hnr
    · intro qid hq
      have hr := (h qid hq).1
      obtain ⟨hsq, hd⟩ := (inRange_reach hr).sqes
      have hdepth := qDepth_reach hr
      have hios := (calculateDepths_devInit (startedInfo info depth)).2
      have within : ∀ e : Sqe, e.Within (startedInfo info depth).queueDepth.toNat →
          e.tag < (σ qid).mem.qDepth ∧
            (e.tag : ℤ) < (ublksrvCalculateDepths (ublksrvDevInit (startedInfo info depth))).nrIos := by
        intro e he
        have hlt := he.1
        constructor
        · rw [hdepth]
          exact hlt
        · rw [hios]
          omega
      exact ⟨fun e he => within e (hsq e he), fun e he => within e (hd e he)⟩
    · intro qid hq rid hlt
      rw [hserved qid hq] at hlt
      cases hlt

theorem deliveredOnce_daemon : Daemon (addedDev 1 4) (startedInfo oneTag 1) fun _ => firstCommit := by
  intro qid hq
  have hz : qid = 0 := by
    have : qid < 1 := List.mem_range.mp hq
    omega
  subst hz
  exact ⟨firstCommit_reach.free, by decide⟩

theorem inBounds_iff_deliveredOnce :
    InBounds (addedDev 1 4) (startedInfo oneTag 1) (fun _ => firstCommit) ↔
      (addedDev 1 4).nrHwQueues ≤ maxNrHwQueues ∧
        ∀ qid ∈ queueIds (addedDev 1 4), firstCommit.served = 0 :=
  inBounds_iff 1 1 4 oneTag (fun _ => firstCommit) deliveredOnce_daemon

theorem not_inBounds : ¬ ∀ (queues depth : ℤ) (cpus : ℕ) (info : DevInfo) (σ : ℕ → State),
    0 < (startupDepth depth).toNat → (startupDepth depth).toNat ≤ ublkMaxQueueDepth →
    Daemon (addedDev queues cpus) (startedInfo info depth) σ →
    InBounds (addedDev queues cpus) (startedInfo info depth) σ := by
  intro h
  have hb := h 1 1 4 oneTag (fun _ => firstCommit) (by decide) (by decide) deliveredOnce_daemon
  exact absurd (hb.areas 0 (by decide) 0 (by decide)) (by decide)

end GoUblksrv.Queue
