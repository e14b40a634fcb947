import GoUblksrv.Queue.Erase

namespace GoUblksrv.Queue

variable {info : DevInfo} {qId : ℕ} {buf : ℕ → UInt64} {mem q q' : Memory} {tag k n : ℕ} {op : IoCmdOp}

theorem wrapInt_sub (n m : ℤ) : wrapInt (wrapInt n - m) = wrapInt (n - m) := Int.bmod_sub_bmod

/-- What the fetch loop relies on; the counter is an `int`. -/
structure Fetchable (n : ℕ) (q : Memory) : Prop where
  flags : ∀ i < n, (q.ios i).flags = { needFetchRq := true, ioFree := true }
  sq : q.ring.sq = []
  room : n ≤ q.ring.sqEntries
  depth : n < 2 ^ 16
  inflight : wrapInt q.tgtIoInflight = q.tgtIoInflight

theorem fetchable_prepared (h : wrapInt mem.tgtIoInflight = mem.tgtIoInflight) :
    Fetchable info.queueDepth.toNat (prepared info qId buf mem) where
  flags i hi := by simp [prepared, hi]
  sq := rfl
  room := by
    have hd := (calculateDepths_devInit info).1
    exact (by omega : _ ≤ _).trans (le_sqEntriesOf _)
  depth := info.queueDepth.toNat_lt
  inflight := h

def fetched (q : Memory) (k : ℕ) (w : Waiter) : Memory :=
  { q with
    tgtIoInflight := wrapInt (q.tgtIoInflight - k)
    cond := w
    ring := { q.ring with sq := (List.range k).map fun i => prepSqe q i .fetchReq }
    ios := fun i => if i < k then { q.ios i with flags := {} } else q.ios i }

section

variable {w : Waiter}

theorem fetched_zero (h : Fetchable n q) : fetched q 0 q.cond = q := by
  obtain ⟨_, hsq, _, _, hc⟩ := h
  simp only [fetched, Nat.not_lt_zero, if_false, List.range_zero, List.map_nil, ← hsq, Nat.cast_zero,
    sub_zero, hc]

theorem last_iff (h : Fetchable n q) (hk : k < n) :
    wrapInt (q.tgtIoInflight - k) = 1 ↔ q.tgtIoInflight = k + 1 := by
  have hn := h.depth
  have hle : -(2 ^ 31 : ℤ) ≤ q.tgtIoInflight := h.inflight ▸ Int.le_bmod (by decide)
  have hlt : q.tgtIoInflight < 2 ^ 31 := h.inflight ▸ Int.bmod_lt (by decide)
  constructor
  · intro h1
    have hmod : (q.tgtIoInflight - k) % (2 ^ 32 : ℕ) = 1 % (2 ^ 32 : ℕ) := by
      rw [← h1, wrapInt, Int.bmod_emod]
    omega
  · intro hq
    have hone : q.tgtIoInflight - k = 1 := by omega
    rw [hone]
    rfl

theorem prepSqe_fetched : prepSqe (fetched q k w) k op = prepSqe q k op := by
  simp [prepSqe, fetched]

theorem fetched_succ : { filled (fetched q k w) k .fetchReq with
      tgtIoInflight := wrapInt ((fetched q k w).tgtIoInflight - 1) } = fetched q (k + 1) w := by
  have hsub : wrapInt (wrapInt (q.tgtIoInflight - k) - 1) = wrapInt (q.tgtIoInflight - (k + 1 : ℕ)) := by
    rw [wrapInt_sub]
    congr 1
    omega
  have hios : Function.update (fetched q k w).ios k { (fetched q k w).ios k with flags := {} } =
      (fetched q (k + 1) w).ios := by
    funext i
    by_cases hi : i = k
    · subst hi
      simp [fetched]
    · have hlt : i < k + 1 ↔ i < k := by omega
      rw [Function.update_of_ne hi]
      simp only [fetched, hlt]
  have hsq : (fetched q k w).ring.sq ++ [prepSqe (fetched q k w) k .fetchReq] =
      (fetched q (k + 1) w).ring.sq := by
    rw [prepSqe_fetched]
    simp [fetched, List.range_succ]
  simp only [filled, setFlags, setIo, hios, hsq]
  simp only [fetched, hsub]

theorem fetched_needed (h : Fetchable n q) (hk : k < n) :
    neededOp ((fetched q k w).ios k).flags = some .fetchReq := by
  have hflags : ((fetched q k w).ios k).flags = (q.ios k).flags := by simp [fetched]
  rw [hflags, h.flags k hk]
  rfl

theorem fetched_room (h : Fetchable n q) (hk : k < n) :
    (fetched q k w).ring.sq.length < (fetched q k w).ring.sqEntries := by
  have hr := h.room
  simp only [fetched, List.length_map, List.length_range]
  omega

end

/-- With the mutexes free the loop gets through, whatever the counter is. -/
theorem fetchLoop_free (h : Fetchable n q) (hl : q.lock = false) (hm : q.condMutex = false) (hk : k ≤ n) :
    ∃ w, fetchLoop q k = some (fetched q k w) := by
  induction k with
  | zero => exact ⟨q.cond, by rw [fetched_zero h, fetchLoop_zero]⟩
  | succ k ih =>
    obtain ⟨w, hw⟩ := ih (by omega)
    have hroom : ¬ (fetched q k w).ring.sqEntries ≤ (fetched q k w).ring.sq.length :=
      Nat.not_le.mpr (fetched_room h (by omega))
    have hl' : (fetched q k w).lock = false := hl
    have hm' : (fetched q k w).condMutex = false := hm
    rw [fetchLoop_succ, hw, Option.bind_some, ublksrvQueueIoCmd_eq, fetched_needed h (by omega)]
    simp only [hl', hm', if_neg hroom, Bool.false_eq_true, and_false, if_false, Option.map_some]
    refine ⟨if (fetched q k w).tgtIoInflight = 1 then w.signal else w, congrArg some ?_⟩
    have hset := congrArg (fun m : Memory => { m with
      cond := if (fetched q k w).tgtIoInflight = 1 then w.signal else w
      lock := false }) (fetched_succ (q := q) (k := k) (w := w))
    exact hset.trans (by simp only [fetched, hl])

end GoUblksrv.Queue
