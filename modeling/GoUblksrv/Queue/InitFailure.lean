import GoUblksrv.Lib.Ledger
import GoUblksrv.Lib.Program
import GoUblksrv.Queue.Windows

/-!
`ublksrv_queue_init` with the calls that can fail, as a program that asks for memory, a mapping
and a ring. When all are granted the result is that of `ublksrvQueueInit`.
-/

namespace GoUblksrv.Queue

inductive InitRes
  | queue
  | mapping
  | buffer (i : ℕ)
  | privateData (i : ℕ)
  | ring
  deriving DecidableEq, Repr

/-- `release` is the `free`, `munmap` or `io_uring_queue_exit` that gives a resource back. -/
inductive InitCall
  | mallocQueue (nrIos : ℤ)
  | mmap (window : Option Window)
  | posixMemalign (i : ℕ) (alignment size : Int32)
  | mallocPrivate (i size : ℕ)
  | ioUringQueueInitParams (ringDepth cqDepth : ℤ)
  | ioUringRegisterFiles (nrFds : UInt32)
  | release (r : InitRes)
  deriving DecidableEq, Repr

structure InitAnswer where
  ret : ℤ
  ptr : UInt64
  deriving DecidableEq, Repr

abbrev mapFailed : UInt64 := 0xffffffffffffffff

abbrev InitProg := Program InitCall InitAnswer

def initCall (c : InitCall) : InitProg InitAnswer := .ask c .done

structure InitArgs where
  dev : Dev
  qId : UInt16
  nrFds : UInt32
  maxIoBufBytes : UInt32
  pagesize : Int32
  deriving DecidableEq, Repr

inductive InitOutcome
  | null
  | queue (q : Memory)
  | stuck

/-- How the call ended, and `dev->__queues` then. A write through NULL and a lock that is never
free do not end. -/
structure InitResult where
  outcome : InitOutcome
  queues : ℕ → UInt64

def InitResult.of (queues : ℕ → UInt64) : Option Memory → InitResult
  | none => ⟨.stuck, queues⟩
  | some q => ⟨.queue q, queues⟩

variable (a : InitArgs)

def InitArgs.depth : ℕ := a.dev.info.queueDepth.toNat

def InitArgs.nrIos : ℕ := (ublksrvCalculateDepths a.dev).nrIos.toNat

def InitArgs.memalign (i : ℕ) : InitCall := .posixMemalign i a.pagesize a.maxIoBufBytes.toInt32

def InitArgs.mallocCall : InitCall := .mallocQueue (ublksrvCalculateDepths a.dev).nrIos

def InitArgs.mmapCall : InitCall := .mmap (cmdBufWindow a.dev.info.queueDepth a.qId a.pagesize)

def InitArgs.ringCall : InitCall :=
  .ioUringQueueInitParams (ublksrvCalculateDepths a.dev).ringDepth (ublksrvCalculateDepths a.dev).cqDepth

def InitArgs.filesCall : InitCall := .ioUringRegisterFiles (a.nrFds + 1)

def allocIoBuf (i : ℕ) : InitProg (Option UInt64) := do
  let r ← initCall (a.memalign i)
  if r.ret ≠ 0 then pure none else if r.ptr = 0 then pure none else pure (some r.ptr)

/-- `n` turns of the loop over `q->ios` from slot `i` on: the values of `buf_addr`, or the jump
to `fail`. -/
def initIos : ℕ → ℕ → InitProg (Option (List UInt64))
  | _, 0 => pure (some [])
  | i, n + 1 => do
    let buf ← if i < a.depth then allocIoBuf a i else pure (some 0)
    match buf with
    | none => pure none
    | some bufAddr => do
      let _ ← initCall (.mallocPrivate i ioDataSize)
      let rest ← initIos (i + 1) n
      pure (rest.map (bufAddr :: ·))

/-- The rest of the function, in which only the lock of the queue can stop the thread. -/
def initDone (queues : ℕ → UInt64) (mem : Memory) (bufs : List UInt64) : InitResult :=
  .of queues (ublksrvQueueInit a.dev a.qId.toNat (fun i => bufs.getD i 0) mem)

def initRing (queues : ℕ → UInt64) (mem : Memory) (bufs : List UInt64) : InitProg InitResult := do
  let r ← initCall a.ringCall
  if r.ret < 0 then pure ⟨.null, queues⟩
  else do
    let f ← initCall a.filesCall
    if f.ret ≠ 0 then pure ⟨.null, queues⟩ else pure (initDone a queues mem bufs)

def initRest (queues : ℕ → UInt64) (mem : Memory) : Option (List UInt64) → InitProg InitResult
  | none => pure ⟨.null, queues⟩
  | some bufs => initRing a queues mem bufs

/-- `mem` is the content of the memory that `malloc` returns for the queue. The label `fail`
prints and returns NULL. -/
def ublksrvQueueInitProgram (queues : ℕ → UInt64) (mem : Memory) : InitProg InitResult :=
  if (ublksrvCalculateDepths a.dev).nrIos > a.dev.info.queueDepth.toNat * 3 then pure ⟨.null, queues⟩
  else do
    let q ← initCall a.mallocCall
    let queues := Function.update queues a.qId.toNat q.ptr
    if q.ptr = 0 then pure ⟨.stuck, queues⟩
    else do
      let m ← initCall a.mmapCall
      if m.ptr = mapFailed then pure ⟨.null, queues⟩
      else do
        let bufs ← initIos a 0 a.nrIos
        initRest a queues mem bufs

def InitCall.entries (ans : InitCall → InitAnswer) (c : InitCall) : List (Entry InitRes) :=
  match c with
  | .mallocQueue _ => if (ans c).ptr = 0 then [] else [.acquire .queue]
  | .mmap _ => if (ans c).ptr = mapFailed then [] else [.acquire .mapping]
  | .posixMemalign i _ _ => if (ans c).ret = 0 ∧ (ans c).ptr ≠ 0 then [.acquire (.buffer i)] else []
  | .mallocPrivate i _ => if (ans c).ptr = 0 then [] else [.acquire (.privateData i)]
  | .ioUringQueueInitParams _ _ => if (ans c).ret < 0 then [] else [.acquire .ring]
  | .ioUringRegisterFiles _ => []
  | .release r => [.release r]

def account (ans : InitCall → InitAnswer) (cs : List InitCall) : List (Entry InitRes) :=
  cs.flatMap (InitCall.entries ans)

structure Released (ans : InitCall → InitAnswer) (queues : ℕ → UInt64) (res : InitResult)
    (cs : List InitCall) : Prop where
  slot : res.outcome = .null → res.queues a.qId.toNat = queues a.qId.toNat
  settled : res.outcome = .null → Ledger.Settled (account ans cs)

variable {ans : InitCall → InitAnswer} {queues : ℕ → UInt64} {mem : Memory}

@[simp] theorem initCall_eval (c : InitCall) : (initCall c).eval ans = ans c := rfl

@[simp] theorem initCall_trace (c : InitCall) : (initCall c).trace ans = [c] := rfl

@[simp] theorem account_nil : account ans [] = [] := rfl

@[simp] theorem account_cons (c : InitCall) (cs : List InitCall) :
    account ans (c :: cs) = c.entries ans ++ account ans cs := rfl

@[simp] theorem account_append (cs cs' : List InitCall) :
    account ans (cs ++ cs') = account ans cs ++ account ans cs' := List.flatMap_append

/-- Slot `i` needs no buffer, or gets one. -/
def bufferOk (ans : InitCall → InitAnswer) (i : ℕ) : Bool :=
  decide (a.depth ≤ i) || ((ans (a.memalign i)).ret == 0 && (ans (a.memalign i)).ptr != 0)

def bufAddr (ans : InitCall → InitAnswer) (i : ℕ) : UInt64 :=
  if i < a.depth then (ans (a.memalign i)).ptr else 0

def slotTaken (ans : InitCall → InitAnswer) (i : ℕ) : List InitRes :=
  (if i < a.depth then [.buffer i] else []) ++
    if (ans (.mallocPrivate i ioDataSize)).ptr = 0 then [] else [.privateData i]

theorem bufferOk_iff (i : ℕ) : bufferOk a ans i = true ↔
    (i < a.depth → (ans (a.memalign i)).ret = 0 ∧ (ans (a.memalign i)).ptr ≠ 0) := by
  simp only [bufferOk, Bool.or_eq_true, decide_eq_true_eq, Bool.and_eq_true, beq_iff_eq, bne_iff_ne]
  constructor
  · rintro (h | h) hi
    · omega
    · exact h
  · intro h
    rcases Nat.lt_or_ge i a.depth with hi | hi
    · exact .inr (h hi)
    · exact .inl hi

theorem initIos_next {i : ℕ} (n : ℕ) (h : bufferOk a ans i = true) :
    (initIos a i (n + 1)).eval ans =
        ((initIos a (i + 1) n).eval ans).map (bufAddr a ans i :: ·) ∧
      account ans ((initIos a i (n + 1)).trace ans) =
        (slotTaken a ans i).map .acquire ++ account ans ((initIos a (i + 1) n).trace ans) := by
  rw [bufferOk_iff] at h
  rcases Nat.lt_or_ge i a.depth with hi | hi
  · obtain ⟨hret, hptr⟩ := h hi
    have hbuf : (a.memalign i).entries ans = [.acquire (.buffer i)] := if_pos ⟨hret, hptr⟩
    constructor
    · simp [initIos, allocIoBuf, bufAddr, hi, hret, hptr]
    · simp only [initIos, allocIoBuf, hi, if_true, hret, hptr, Program.trace_bind, Program.eval_bind,
        initCall_trace, initCall_eval, ne_eq, not_true_eq_false, if_false, Program.trace_pure,
        Program.eval_pure, account_append, account_cons, hbuf, slotTaken]
      by_cases hp : (ans (.mallocPrivate i ioDataSize)).ptr = 0 <;> simp [InitCall.entries, hp]
  · have hi' := Nat.not_lt.mpr hi
    constructor
    · simp [initIos, bufAddr, hi']
    · simp only [initIos, hi', if_false, Program.trace_bind, initCall_trace, Program.trace_pure, Program.eval_pure,
        account_append, account_cons, slotTaken]
      by_cases hp : (ans (.mallocPrivate i ioDataSize)).ptr = 0 <;> simp [InitCall.entries, hp]

theorem initIos_fail {i : ℕ} (n : ℕ) (h : bufferOk a ans i = false) :
    (initIos a i (n + 1)).eval ans = none ∧ account ans ((initIos a i (n + 1)).trace ans) = [] := by
  obtain ⟨hi, hbad⟩ : i < a.depth ∧ ¬ ((ans (a.memalign i)).ret = 0 ∧ (ans (a.memalign i)).ptr ≠ 0) := by
    by_contra hn
    have hok : bufferOk a ans i = true := (bufferOk_iff a i).mpr fun hi => by_contra fun hb => hn ⟨hi, hb⟩
    rw [hok] at h
    cases h
  have hbuf : (a.memalign i).entries ans = [] := if_neg hbad
  by_cases hret : (ans (a.memalign i)).ret = 0
  · have hptr : (ans (a.memalign i)).ptr = 0 := by_contra fun hp => hbad ⟨hret, hp⟩
    simp [initIos, allocIoBuf, hi, hret, hptr, hbuf]
  · simp [initIos, allocIoBuf, hi, hret, hbuf]

theorem initIos_eval (i n : ℕ) : (initIos a i n).eval ans =
    if (List.range' i n).all (bufferOk a ans) then some ((List.range' i n).map (bufAddr a ans)) else none := by
  induction n generalizing i with
  | zero => rfl
  | succ n ih =>
    rw [List.range'_succ, List.all_cons, List.map_cons]
    cases h : bufferOk a ans i with
    | true =>
      rw [(initIos_next a n h).1, ih, Bool.true_and]
      split_ifs <;> rfl
    | false =>
      rw [(initIos_fail a n h).1, Bool.false_and]
      rfl

theorem initIos_account (i n : ℕ) : account ans ((initIos a i n).trace ans) =
    (((List.range' i n).takeWhile (bufferOk a ans)).flatMap (slotTaken a ans)).map .acquire := by
  induction n generalizing i with
  | zero => rfl
  | succ n ih =>
    rw [List.range'_succ]
    cases h : bufferOk a ans i with
    | true =>
      rw [(initIos_next a n h).2, ih, List.takeWhile_cons_of_pos h, List.flatMap_cons, List.map_append]
    | false =>
      rw [(initIos_fail a n h).2, List.takeWhile_cons_of_neg (by rw [h]; decide)]
      rfl

theorem InitResult.of_ne_null (q : Option Memory) : (InitResult.of queues q).outcome ≠ .null := by
  cases q <;> simp [InitResult.of]

theorem initDone_ne_null (bufs : List UInt64) : (initDone a queues mem bufs).outcome ≠ .null :=
  InitResult.of_ne_null _

theorem initRing_eval (bufs : List UInt64) : (initRing a queues mem bufs).eval ans =
    if 0 ≤ (ans a.ringCall).ret ∧ (ans a.filesCall).ret = 0 then initDone a queues mem bufs
    else ⟨.null, queues⟩ := by
  rw [initRing, Program.eval_bind, initCall_eval]
  rcases Int.lt_or_le (ans a.ringCall).ret 0 with hr | hr
  · rw [if_pos hr, if_neg (fun h => absurd h.1 (Int.not_le.mpr hr)), Program.eval_pure]
  · rw [if_neg (Int.not_lt.mpr hr), Program.eval_bind, initCall_eval]
    by_cases hf : (ans a.filesCall).ret = 0
    · rw [if_neg (not_not.mpr hf), if_pos ⟨hr, hf⟩, Program.eval_pure]
    · rw [if_pos hf, if_neg (fun h => hf h.2), Program.eval_pure]

theorem initRing_account (bufs : List UInt64) : account ans ((initRing a queues mem bufs).trace ans) =
    if (ans a.ringCall).ret < 0 then [] else [.acquire .ring] := by
  have hring : a.ringCall.entries ans = if (ans a.ringCall).ret < 0 then [] else [.acquire .ring] := rfl
  have hfiles : a.filesCall.entries ans = [] := rfl
  rcases Int.lt_or_le (ans a.ringCall).ret 0 with hr | hr
  · simp [initRing, hr, hring]
  · by_cases hf : (ans a.filesCall).ret = 0 <;> simp [initRing, Int.not_lt.mpr hr, hf, hring, hfiles]

/-- The calls after the allocation of the queue all succeed. -/
structure Granted (ans : InitCall → InitAnswer) : Prop where
  mapping : (ans a.mmapCall).ptr ≠ mapFailed
  buffers : ∀ i < a.nrIos, i < a.depth → (ans (a.memalign i)).ret = 0 ∧ (ans (a.memalign i)).ptr ≠ 0
  ring : 0 ≤ (ans a.ringCall).ret
  files : (ans a.filesCall).ret = 0

def InitArgs.TooManyIos : Prop :=
  (ublksrvCalculateDepths a.dev).nrIos > a.dev.info.queueDepth.toNat * 3

theorem all_bufferOk_iff : (List.range' 0 a.nrIos).all (bufferOk a ans) = true ↔
    ∀ i < a.nrIos, i < a.depth → (ans (a.memalign i)).ret = 0 ∧ (ans (a.memalign i)).ptr ≠ 0 := by
  simp only [List.all_eq_true, List.mem_range'_1, bufferOk_iff]
  constructor
  · intro h i hi
    exact h i (by omega)
  · intro h i hi
    exact h i (by omega)

/-- What the function has taken when it returns, in the order in which it took it. -/
def taken (ans : InitCall → InitAnswer) : List InitRes :=
  .queue ::
    if (ans a.mmapCall).ptr = mapFailed then []
    else
      .mapping :: (((List.range' 0 a.nrIos).takeWhile (bufferOk a ans)).flatMap (slotTaken a ans) ++
        if (List.range' 0 a.nrIos).all (bufferOk a ans) && decide (0 ≤ (ans a.ringCall).ret) then [.ring]
        else [])

theorem granted_iff : Granted a ans ↔
    (ans a.mmapCall).ptr ≠ mapFailed ∧ (List.range' 0 a.nrIos).all (bufferOk a ans) = true ∧
      0 ≤ (ans a.ringCall).ret ∧ (ans a.filesCall).ret = 0 := by
  rw [all_bufferOk_iff]
  constructor
  · intro hg
    exact ⟨hg.mapping, hg.buffers, hg.ring, hg.files⟩
  · rintro ⟨hm, hb, hr, hf⟩
    exact ⟨hm, hb, hr, hf⟩

variable (ans queues mem)

theorem program_tooMany (h : a.TooManyIos) :
    (ublksrvQueueInitProgram a queues mem).eval ans = ⟨.null, queues⟩ ∧
      (ublksrvQueueInitProgram a queues mem).trace ans = [] := by
  rw [InitArgs.TooManyIos] at h
  rw [ublksrvQueueInitProgram, if_pos h, Program.eval_pure, Program.trace_pure]
  exact ⟨rfl, rfl⟩

theorem program_noMemory (h : ¬ a.TooManyIos) (hq : (ans a.mallocCall).ptr = 0) :
    ((ublksrvQueueInitProgram a queues mem).eval ans).outcome = .stuck := by
  rw [InitArgs.TooManyIos] at h
  rw [ublksrvQueueInitProgram, if_neg h, Program.eval_bind, initCall_eval, if_pos hq, Program.eval_pure]

theorem program_eval (h : ¬ a.TooManyIos) (hq : (ans a.mallocCall).ptr ≠ 0) :
    (ublksrvQueueInitProgram a queues mem).eval ans =
      if (ans a.mmapCall).ptr ≠ mapFailed ∧ (List.range' 0 a.nrIos).all (bufferOk a ans) = true ∧
          0 ≤ (ans a.ringCall).ret ∧ (ans a.filesCall).ret = 0 then
        initDone a (Function.update queues a.qId.toNat (ans a.mallocCall).ptr) mem
          ((List.range' 0 a.nrIos).map (bufAddr a ans))
      else ⟨.null, Function.update queues a.qId.toNat (ans a.mallocCall).ptr⟩ := by
  rw [InitArgs.TooManyIos] at h
  rw [ublksrvQueueInitProgram, if_neg h, Program.eval_bind, initCall_eval, if_neg hq, Program.eval_bind,
    initCall_eval]
  by_cases hm : (ans a.mmapCall).ptr = mapFailed
  · rw [if_pos hm, if_neg (fun hall => hall.1 hm), Program.eval_pure]
  · rw [if_neg hm, Program.eval_bind, initIos_eval]
    by_cases hall : (List.range' 0 a.nrIos).all (bufferOk a ans) = true
    · rw [if_pos hall]
      rw [initRest, initRing_eval]
      by_cases hr : 0 ≤ (ans a.ringCall).ret ∧ (ans a.filesCall).ret = 0
      · rw [if_pos hr, if_pos ⟨hm, hall, hr⟩]
      · rw [if_neg hr, if_neg (fun h => hr h.2.2)]
    · rw [if_neg hall, if_neg (fun h => hall h.2.1), initRest, Program.eval_pure]

theorem program_account (h : ¬ a.TooManyIos) (hq : (ans a.mallocCall).ptr ≠ 0) :
    account ans ((ublksrvQueueInitProgram a queues mem).trace ans) = (taken a ans).map .acquire := by
  have hmalloc : a.mallocCall.entries ans = [.acquire .queue] := if_neg hq
  rw [InitArgs.TooManyIos] at h
  rw [ublksrvQueueInitProgram, if_neg h, Program.trace_bind, initCall_trace, initCall_eval, if_neg hq,
    Program.trace_bind, initCall_trace, initCall_eval, account_append, account_append, account_cons,
    account_cons, hmalloc, taken]
  by_cases hm : (ans a.mmapCall).ptr = mapFailed
  · have hmap : a.mmapCall.entries ans = [] := if_pos hm
    rw [if_pos hm, if_pos hm, Program.trace_pure, hmap]
    rfl
  · have hmap : a.mmapCall.entries ans = [.acquire .mapping] := if_neg hm
    rw [if_neg hm, if_neg hm, Program.trace_bind, account_append, initIos_account, initIos_eval, hmap]
    by_cases hall : (List.range' 0 a.nrIos).all (bufferOk a ans) = true
    · rw [if_pos hall, initRest, initRing_account, hall, Bool.true_and]
      rcases Int.lt_or_le (ans a.ringCall).ret 0 with hr | hr
      · rw [if_pos hr, decide_eq_false (Int.not_le.mpr hr)]
        simp
      · rw [if_neg (Int.not_lt.mpr hr), decide_eq_true hr]
        simp
    · rw [if_neg hall, initRest, Program.trace_pure, Bool.eq_false_iff.mpr hall, Bool.false_and]
      simp

theorem program_held (h : ¬ a.TooManyIos) (hq : (ans a.mallocCall).ptr ≠ 0) :
    Ledger.held [] (account ans ((ublksrvQueueInitProgram a queues mem).trace ans)) =
      (taken a ans).reverse := by
  rw [program_account a ans queues mem h hq, Ledger.held_map_acquire, List.append_nil]

theorem program_null_iff (h : ¬ a.TooManyIos) (hq : (ans a.mallocCall).ptr ≠ 0) :
    ((ublksrvQueueInitProgram a queues mem).eval ans).outcome = .null ↔ ¬ Granted a ans := by
  rw [program_eval a ans queues mem h hq]
  by_cases hg : Granted a ans
  · rw [if_pos ((granted_iff a).mp hg)]
    exact iff_of_false (initDone_ne_null a _) (not_not.mpr hg)
  · rw [if_neg fun hall => hg ((granted_iff a).mpr hall)]
    exact iff_of_true rfl hg

theorem released_iff : Released a ans queues ((ublksrvQueueInitProgram a queues mem).eval ans)
      ((ublksrvQueueInitProgram a queues mem).trace ans) ↔
    a.TooManyIos ∨ (ans a.mallocCall).ptr = 0 ∨ Granted a ans := by
  by_cases hmany : a.TooManyIos
  · obtain ⟨he, ht⟩ := program_tooMany a ans queues mem hmany
    rw [he, ht]
    exact iff_of_true ⟨fun _ => rfl, fun _ => ⟨rfl, rfl⟩⟩ (.inl hmany)
  by_cases hq : (ans a.mallocCall).ptr = 0
  · have hstuck := program_noMemory a ans queues mem hmany hq
    apply iff_of_true _ (.inr (.inl hq))
    constructor <;> rw [hstuck] <;> rintro ⟨⟩
  have hnull := program_null_iff a ans queues mem hmany hq
  by_cases hg : Granted a ans
  · apply iff_of_true _ (.inr (.inr hg))
    constructor <;> intro hn <;> exact absurd hg (hnull.mp hn)
  · apply iff_of_false
    · intro hr
      have hs := hr.settled (hnull.mpr hg)
      rw [program_account a ans queues mem hmany hq, Ledger.settled_map_acquire_iff] at hs
      cases hs
    · rintro (h | h | h)
      · exact hmany h
      · exact hq h
      · exact hg h

theorem ublksrvQueueInit_congr {dev : Dev} {qId : ℕ} {buf buf' : ℕ → UInt64}
    (h : ∀ i : ℕ, (i : ℤ) < (ublksrvCalculateDepths dev).nrIos → i < dev.info.queueDepth.toNat →
      buf i = buf' i) :
    ublksrvQueueInit dev qId buf mem = ublksrvQueueInit dev qId buf' mem := by
  have hios : (fun i : ℕ =>
      if (i : ℤ) < (ublksrvCalculateDepths dev).nrIos then
        { mem.ios i with
          flags := { needFetchRq := true, ioFree := true }
          bufAddr := if i < dev.info.queueDepth.toNat then buf i else 0 }
      else mem.ios i) = fun i : ℕ =>
      if (i : ℤ) < (ublksrvCalculateDepths dev).nrIos then
        { mem.ios i with
          flags := { needFetchRq := true, ioFree := true }
          bufAddr := if i < dev.info.queueDepth.toNat then buf' i else 0 }
      else mem.ios i := by
    funext i
    split_ifs with hi hd
    · rw [h i hi hd]
    · rfl
    · rfl
  unfold ublksrvQueueInit
  simp only [hios]

theorem program_granted (h : ¬ a.TooManyIos) (hq : (ans a.mallocCall).ptr ≠ 0) (hg : Granted a ans) :
    (ublksrvQueueInitProgram a queues mem).eval ans =
      .of (Function.update queues a.qId.toNat (ans a.mallocCall).ptr)
        (ublksrvQueueInit a.dev a.qId.toNat (fun i => (ans (a.memalign i)).ptr) mem) := by
  rw [program_eval a ans queues mem h hq, if_pos ((granted_iff a).mp hg), initDone]
  apply congrArg
  apply ublksrvQueueInit_congr
  intro i hi hd
  have hlt : i < a.nrIos := by
    rw [InitArgs.nrIos]
    omega
  have hd' : i < a.depth := hd
  simp [bufAddr, hlt, hd']

/-- A system that grants everything but the mapping of the command buffer. -/
def noMapping (c : InitCall) : InitAnswer :=
  match c with
  | .mmap _ => ⟨0, mapFailed⟩
  | _ => ⟨0, 4096⟩

theorem not_released : ¬ ∀ a ans queues mem,
    Released a ans queues ((ublksrvQueueInitProgram a queues mem).eval ans)
      ((ublksrvQueueInitProgram a queues mem).trace ans) := by
  intro h
  have hmany : ¬ InitArgs.TooManyIos ⟨ublksrvDevInit oneTag, 0, 0, 524288, 4096⟩ := by
    simp only [InitArgs.TooManyIos]
    decide
  have hq : (noMapping (InitArgs.mallocCall ⟨ublksrvDevInit oneTag, 0, 0, 524288, 4096⟩)).ptr ≠ 0 := by decide
  have hg : ¬ Granted ⟨ublksrvDevInit oneTag, 0, 0, 524288, 4096⟩ noMapping := fun hg => hg.mapping rfl
  have hslot := (h _ noMapping (fun _ => 0) zeroed).slot
    ((program_null_iff _ noMapping (fun _ => 0) zeroed hmany hq).mpr hg)
  rw [program_eval _ noMapping (fun _ => 0) zeroed hmany hq, if_neg fun hall => hall.1 rfl] at hslot
  revert hslot
  decide

end GoUblksrv.Queue
