import GoUblksrv.Queue.Inversion

namespace GoUblksrv.Queue

variable {q q' : Memory} {tag : ℕ} {r : ℤ}

def issued (q : Memory) (tag : ℕ) (op : IoCmdOp) : Memory :=
  { filled q tag op with
    tgtIoInflight := wrapInt (q.tgtIoInflight - 1)
    cond := if q.tgtIoInflight = 1 then q.cond.signal else q.cond
    lock := false }

theorem ublksrvQueueIoCmd_eq (q : Memory) (tag : ℕ) : ublksrvQueueIoCmd q tag =
    if q.lock then none
    else match neededOp (q.ios tag).flags with
      | none => some (0, { q with lock := true })
      | some op =>
        if q.ring.sqEntries ≤ q.ring.sq.length then some (-1, { q with lock := true })
        else if q.tgtIoInflight = 1 ∧ q.condMutex = true then none
        else some (1, issued q tag op) := by
  cases hl : q.lock with
  | true => simp [ublksrvQueueIoCmd, queueIoCmdRun, queueIoCmdStep, hl]
  | false =>
    cases hn : neededOp (q.ios tag).flags with
    | none => simp [ublksrvQueueIoCmd, queueIoCmdRun, queueIoCmdStep, fillSqe, hl, hn]
    | some op =>
      by_cases hr : q.ring.sqEntries ≤ q.ring.sq.length
      · simp [ublksrvQueueIoCmd, queueIoCmdRun, queueIoCmdStep, fillSqe, hl, hn, hr, Nat.not_lt.mpr hr]
      · have hlt : q.ring.sq.length < q.ring.sqEntries := by omega
        by_cases hi : q.tgtIoInflight = 1
        · cases hm : q.condMutex
          · simp [ublksrvQueueIoCmd, queueIoCmdRun, queueIoCmdStep, fillSqe, hl, hn, hr, hlt, hi, hm,
              setFlags, setIo, issued, filled]
            rfl
          · simp [ublksrvQueueIoCmd, queueIoCmdRun, queueIoCmdStep, fillSqe, hl, hn, hr, hlt, hi, hm,
              setFlags, setIo]
        · simp [ublksrvQueueIoCmd, queueIoCmdRun, queueIoCmdStep, fillSqe, hl, hn, hr, hlt, hi,
            setFlags, setIo, issued, filled]
          rfl

def fetchLoop (q : Memory) (n : ℕ) : Option Memory :=
  (List.range n).foldlM (fun q i => (ublksrvQueueIoCmd q i).map Prod.snd) q

@[simp] theorem fetchLoop_zero (q : Memory) : fetchLoop q 0 = some q := rfl

theorem fetchLoop_succ (q : Memory) (n : ℕ) :
    fetchLoop q (n + 1) = (fetchLoop q n).bind fun q => (ublksrvQueueIoCmd q n).map Prod.snd := by
  rw [fetchLoop, List.range_succ, List.foldlM_append]
  change (fetchLoop q n).bind _ = _
  congr
  funext q
  simp only [List.foldlM_cons, List.foldlM_nil]
  exact bind_pure _

structure Fetched (q₀ : Memory) (n : ℕ) (q : Memory) : Prop where
  tags : q.ring.sq.map Sqe.tag = List.range n
  cmdTags : q.ring.sq.map (fun e => e.cmd.tag) = List.range n
  driverIo : ∀ e ∈ q.ring.sq, isTargetIo e.userData = false
  sqEntries : q.ring.sqEntries = q₀.ring.sqEntries
  issued : ∀ i < n, (q.ios i).flags = {}
  rest : ∀ i ≥ n, q.ios i = q₀.ios i
  stopping : q.stopping = q₀.stopping
  qDepth : q.qDepth = q₀.qDepth

theorem Fetched.next {q₀ : Memory} {n : ℕ} (h : Fetched q₀ n q) (hn : n < 2 ^ 16)
    (hf : (q₀.ios n).flags = { needFetchRq := true, ioFree := true })
    (hr : n < q₀.ring.sqEntries) (hq : ublksrvQueueIoCmd q n = some (r, q')) :
    Fetched q₀ (n + 1) q' := by
  have hop : neededOp (q.ios n).flags = some .fetchReq := by rw [h.rest n (le_refl n), hf]; rfl
  have hlen : q.ring.sq.length = n := by simpa using congrArg List.length h.tags
  rw [ublksrvQueueIoCmd_eq, hop] at hq
  simp only [h.sqEntries, hlen, Nat.not_le.mpr hr, ↓reduceIte] at hq
  split_ifs at hq
  cases hq
  constructor
  · simp [GoUblksrv.Queue.issued, filled, setFlags, setIo, h.tags, prepSqe_tag q _ hn, List.range_succ]
  · simp [GoUblksrv.Queue.issued, filled, setFlags, setIo, h.cmdTags, prepSqe, List.range_succ]
  · intro e he
    simp only [GoUblksrv.Queue.issued, filled, List.mem_append, List.mem_singleton] at he
    rcases he with he | rfl
    · exact h.driverIo e he
    · exact prepSqe_driverIo _ _ _
  · exact h.sqEntries
  · intro i hi
    by_cases hin : i = n
    · subst hin
      simp [GoUblksrv.Queue.issued, filled, setFlags, setIo]
    · simpa [GoUblksrv.Queue.issued, filled, setFlags, setIo, hin] using h.issued i (by omega)
  · intro i hi
    have hin : i ≠ n := by omega
    simpa [GoUblksrv.Queue.issued, filled, setFlags, setIo, hin] using h.rest i (by omega)
  · exact h.stopping
  · exact h.qDepth

theorem fetchLoop_fetched {q₀ : Memory} {n : ℕ} (hn : n ≤ 2 ^ 16) (h0 : q₀.ring.sq = [])
    (hf : ∀ i < n, (q₀.ios i).flags = { needFetchRq := true, ioFree := true })
    (hr : n ≤ q₀.ring.sqEntries) (h : fetchLoop q₀ n = some q) : Fetched q₀ n q := by
  induction n generalizing q with
  | zero =>
    cases h
    exact ⟨by simp [h0], by simp [h0], by simp [h0], rfl, by simp, fun _ _ => rfl, rfl, rfl⟩
  | succ n ih =>
    rw [fetchLoop_succ] at h
    obtain ⟨q₁, h₁, h₂⟩ := Option.bind_eq_some_iff.mp h
    have hq₁ := ih (by omega) (fun i hi => hf i (by omega)) (by omega) h₁
    obtain ⟨⟨r, q₂⟩, hc, rfl⟩ := Option.map_eq_some_iff.mp h₂
    exact hq₁.next (by omega) (hf n (by omega)) (by omega) hc

theorem wrapInt_eq {n : ℤ} (h0 : -2 ^ 31 ≤ n) (h1 : n < 2 ^ 31) : wrapInt n = n :=
  Int.bmod_eq_of_le (by omega) (by omega)

theorem le_sqEntriesOf (n : ℕ) : n ≤ sqEntriesOf n := Nat.le_pow_clog (by decide) n

theorem calculateDepths_devInit (info : DevInfo) :
    info.queueDepth.toNat ≤ (ublksrvCalculateDepths (ublksrvDevInit info)).ringDepth ∧
      (ublksrvCalculateDepths (ublksrvDevInit info)).nrIos = info.queueDepth.toNat := by
  have hd := info.queueDepth.toNat_lt
  have hw : wrapInt (info.queueDepth.toNat : ℤ) = info.queueDepth.toNat :=
    wrapInt_eq (by omega) (by omega)
  simp only [ublksrvCalculateDepths, ublksrvDevInit]
  constructor
  · split_ifs <;> omega
  · simpa using hw

def prepared (info : DevInfo) (qId : ℕ) (buf : ℕ → UInt64) (mem : Memory) : Memory :=
  { mem with
    qId := qId
    qDepth := info.queueDepth.toNat
    stopping := false
    idle := false
    ioctlOp := info.ioctlEncode
    userCopy := info.userCopy
    ring :=
      { sq := []
        sqEntries := sqEntriesOf (ublksrvCalculateDepths (ublksrvDevInit info)).ringDepth.toNat }
    ios := fun i =>
      if i < info.queueDepth.toNat then
        { mem.ios i with flags := { needFetchRq := true, ioFree := true }, bufAddr := buf i }
      else mem.ios i }

def initLocks (q : Memory) : Memory :=
  { q with tgtIoInflight := 0, condMutex := false, cond := .none, lock := false }

theorem ublksrvQueueInit_eq (info : DevInfo) (qId : ℕ) (buf : ℕ → UInt64) (mem : Memory) :
    ublksrvQueueInit (ublksrvDevInit info) qId buf mem =
      (fetchLoop (prepared info qId buf mem) info.queueDepth.toNat).map initLocks := by
  have hios := (calculateDepths_devInit info).2
  have hle : ¬ (info.queueDepth.toNat : ℤ) > info.queueDepth.toNat * 3 := by omega
  have hprep : prepared info qId buf mem =
      { mem with
        qId := qId
        qDepth := info.queueDepth.toNat
        stopping := false
        idle := false
        ioctlOp := info.ioctlEncode
        userCopy := info.userCopy
        ring := { sq := [], sqEntries := sqEntriesOf (ublksrvCalculateDepths (ublksrvDevInit info)).ringDepth.toNat }
        ios := fun i =>
          if (i : ℤ) < info.queueDepth.toNat then
            { mem.ios i with
              flags := { needFetchRq := true, ioFree := true }
              bufAddr := if i < info.queueDepth.toNat then buf i else 0 }
          else mem.ios i } := by
    simp only [prepared, Memory.mk.injEq, true_and]
    funext i
    by_cases hi : i < info.queueDepth.toNat
    · simp [hi]
    · simp [hi]
  rw [hprep]
  simp only [ublksrvQueueInit, hios]
  exact if_neg hle

/-- What every initialised queue is, whatever `malloc` returned. -/
structure Initialised (info : DevInfo) (q : Memory) : Prop where
  tags : q.ring.sq.map Sqe.tag = List.range info.queueDepth.toNat
  cmdTags : q.ring.sq.map (fun e => e.cmd.tag) = List.range info.queueDepth.toNat
  driverIo : ∀ e ∈ q.ring.sq, isTargetIo e.userData = false
  sqEntries : q.ring.sqEntries =
    sqEntriesOf (ublksrvCalculateDepths (ublksrvDevInit info)).ringDepth.toNat
  flags : ∀ i < info.queueDepth.toNat, (q.ios i).flags = {}
  stopping : q.stopping = false
  inflight : q.tgtIoInflight = 0
  lock : q.lock = false
  condMutex : q.condMutex = false
  cond : q.cond = .none

section

variable {info : DevInfo} {qId : ℕ} {buf : ℕ → UInt64} {mem : Memory}

theorem ublksrvQueueInit_fetched (h : ublksrvQueueInit (ublksrvDevInit info) qId buf mem = some q) :
    ∃ q₁, Fetched (prepared info qId buf mem) info.queueDepth.toNat q₁ ∧ q = initLocks q₁ := by
  have hring := (calculateDepths_devInit info).1
  rw [ublksrvQueueInit_eq] at h
  obtain ⟨q₁, hq₁, rfl⟩ := Option.map_eq_some_iff.mp h
  refine ⟨q₁, fetchLoop_fetched info.queueDepth.toNat_lt.le rfl ?_ ?_ hq₁, rfl⟩
  · intro i hi
    simp [prepared, hi]
  · exact (by omega : _ ≤ _).trans (le_sqEntriesOf _)

theorem ublksrvQueueInit_initialised (h : ublksrvQueueInit (ublksrvDevInit info) qId buf mem = some q) :
    Initialised info q := by
  obtain ⟨q₁, hf, rfl⟩ := ublksrvQueueInit_fetched h
  exact
    { tags := hf.tags
      cmdTags := hf.cmdTags
      driverIo := hf.driverIo
      sqEntries := hf.sqEntries
      flags := hf.issued
      stopping := hf.stopping
      inflight := rfl
      lock := rfl
      condMutex := rfl
      cond := rfl }

theorem ublksrvQueueInit_qDepth (h : ublksrvQueueInit (ublksrvDevInit info) qId buf mem = some q) :
    q.qDepth = info.queueDepth.toNat := by
  obtain ⟨q₁, hf, rfl⟩ := ublksrvQueueInit_fetched h
  exact hf.qDepth

end

end GoUblksrv.Queue
