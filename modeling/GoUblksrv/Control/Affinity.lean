import GoUblksrv.Control.Commands
import Mathlib.Data.Nat.Init
import Mathlib.Tactic.Ring

namespace GoUblksrv.Control

abbrev enomem : Int32 := -12

abbrev sizeofCpuSet : ℕ := 128

abbrev Bytes := ℕ → UInt8

def store (m : Bytes) (offset len : ℕ) (b : Bytes) : Bytes :=
  fun x => if offset ≤ x ∧ x < offset + len then b (x - offset) else m x

theorem store_inside (m : Bytes) (offset len : ℕ) (b : Bytes) {j : ℕ} (hj : j < len) :
    store m offset len b (offset + j) = b j := by
  rw [store, if_pos (by omega), Nat.add_sub_cancel_left]

theorem store_outside (m : Bytes) (offset len : ℕ) (b : Bytes) {x : ℕ}
    (hx : x < offset ∨ offset + len ≤ x) : store m offset len b x = m x := by
  rw [store, if_neg (by omega)]

variable (info : CtrlDevInfo)

/-- What `snprintf` writes of "/dev/ublkc" and the id, with the null byte. -/
def devPath : List UInt8 :=
  (("/dev/ublkc" ++ toString info.devId.toInt32.toInt).toList.take (ublkcPathMax - 1)).map
    (fun ch => ch.toNat.toUInt8) ++ [0]

def pathLen : ℕ := if ublkIsUnprivileged info then ublkcPathMax else 0

def recordLen : ℕ := sizeofCpuSet + pathLen info

/-- `len`, which stays below 2^31: there are at most 65535 queues. -/
def cpusetLen : ℕ := recordLen info * info.nrHwQueues.toNat

def affinityCmd (i : ℕ) : CtrlCmd :=
  ublksrvCtrlInitCmd info
    { cmdOp := ⟨.getQueueAffinity, false⟩
      hasData := true
      hasBuf := true
      data := .ofNat i
      devPathLen := pathLen info
      addr := .cpuset (i * recordLen info)
      len := recordLen info }

def writePath (buf : Bytes) (i : ℕ) : Bytes :=
  if pathLen info = 0 then buf
  else store buf (i * recordLen info) (devPath info).length fun j => (devPath info).getD j 0

/-- The driver writes the set at the address of the command plus `dev_path_len`. -/
def writeCpus (buf : Bytes) (i : ℕ) (cpus : Bytes) : Bytes :=
  store buf (i * recordLen info + pathLen info) sizeofCpuSet cpus

def affinityLoop : ℕ → ℕ → Bytes → Ctrl (Int32 × Bytes)
  | 0, _, buf => pure (0, buf)
  | n + 1, i, buf => .ask (affinityCmd info i) fun r =>
    let buf := writeCpus info (writePath info buf i) i r.cpus
    if r.res < 0 then pure (r.res, buf) else affinityLoop n (i + 1) buf

/-- The result, and `queues_cpuset` after it; `mem` is what `malloc` returned. -/
def ublksrvCtrlGetAffinity (mem old : Option Bytes) : Ctrl (Int32 × Option Bytes) :=
  match mem with
  | none => pure (enomem, old)
  | some buf => do
    let (ret, buf) ← affinityLoop info info.nrHwQueues.toNat 0 buf
    if ret < 0 then pure (ret, old) else pure (0, some buf)

/-- `&queues_cpuset[qid]` is an element of an array of `cpu_set_t`. -/
def ublksrvGetQueueAffinity (qid : ℕ) : ℕ :=
  if ublkIsUnprivileged info then qid * sizeofCpuSet + ublkcPathMax else qid * sizeofCpuSet

variable {info} {ans ans' : CtrlCmd → Response} {buf buf' : Bytes} {n i q x : ℕ}

theorem affinityLoop_succ : (affinityLoop info (n + 1) i buf).eval ans =
    if (ans (affinityCmd info i)).res < 0 then
      ((ans (affinityCmd info i)).res,
        writeCpus info (writePath info buf i) i (ans (affinityCmd info i)).cpus)
    else (affinityLoop info n (i + 1)
      (writeCpus info (writePath info buf i) i (ans (affinityCmd info i)).cpus)).eval ans := by
  simp only [affinityLoop, Program.eval_ask]
  split_ifs <;> rfl

theorem round_outside (cpus : Bytes) (hx : x < i * recordLen info) :
    writeCpus info (writePath info buf i) i cpus x = buf x := by
  rw [writeCpus, store_outside _ _ _ _ (.inl (by omega)), writePath]
  split_ifs
  · rfl
  · exact store_outside _ _ _ _ (.inl hx)

theorem affinityLoop_below (hx : x < i * recordLen info) :
    ((affinityLoop info n i buf).eval ans).2 x = buf x := by
  induction n generalizing i buf with
  | zero => rfl
  | succ n ih =>
    rw [affinityLoop_succ]
    split_ifs
    · exact round_outside _ hx
    · have hnext : x < (i + 1) * recordLen info := by
        rw [Nat.add_mul]
        omega
      rw [ih hnext]
      exact round_outside _ hx

theorem affinityLoop_record (h : ¬ ((affinityLoop info n i buf).eval ans).1 < 0) (hi : i ≤ q)
    (hq : q < i + n) {j : ℕ} (hj : j < sizeofCpuSet) :
    ((affinityLoop info n i buf).eval ans).2 (q * recordLen info + pathLen info + j) =
      (ans (affinityCmd info q)).cpus j := by
  induction n generalizing i buf with
  | zero => omega
  | succ n ih =>
    rw [affinityLoop_succ] at h ⊢
    split_ifs at h ⊢ with hres
    · exact absurd hres h
    · by_cases hqi : q = i
      · subst hqi
        rw [affinityLoop_below, writeCpus, store_inside _ _ _ _ hj]
        rw [Nat.add_mul, Nat.one_mul]
        have hrec : recordLen info = sizeofCpuSet + pathLen info := rfl
        omega
      · exact ih h (by omega) (by omega)

theorem affinityLoop_congr (hres : ∀ c, (ans c).res = (ans' c).res)
    (hcpus : ∀ k ≠ q, (ans (affinityCmd info k)).cpus = (ans' (affinityCmd info k)).cpus)
    (hbuf : ∀ x < q * recordLen info + pathLen info, buf x = buf' x)
    (hx : x < q * recordLen info + pathLen info) :
    ((affinityLoop info n i buf).eval ans).2 x = ((affinityLoop info n i buf').eval ans').2 x := by
  induction n generalizing i buf buf' with
  | zero => exact hbuf x hx
  | succ n ih =>
    have hround : ∀ y < q * recordLen info + pathLen info,
        writeCpus info (writePath info buf i) i (ans (affinityCmd info i)).cpus y =
          writeCpus info (writePath info buf' i) i (ans' (affinityCmd info i)).cpus y := by
      intro y hy
      have hpath : writePath info buf i y = writePath info buf' i y := by
        by_cases hp : pathLen info = 0
        · rw [writePath, writePath, if_pos hp, if_pos hp, hbuf y hy]
        · rw [writePath, writePath, if_neg hp, if_neg hp, store, store, hbuf y hy]
      by_cases hiq : i = q
      · subst hiq
        rw [writeCpus, writeCpus, store_outside _ _ _ _ (.inl hy), store_outside _ _ _ _ (.inl hy), hpath]
      · rw [writeCpus, writeCpus, store, store, hcpus i hiq, hpath]
    rw [affinityLoop_succ, affinityLoop_succ, ← hres]
    split_ifs
    · exact hround x hx
    · exact ih hround

/-- The set that the reader finds for queue `q` is what the driver wrote for it. -/
structure Agrees (info : CtrlDevInfo) (q : ℕ) (ans : CtrlCmd → Response) (mem old : Option Bytes) :
    Prop where
  success : ∀ ret cpuset, (ublksrvCtrlGetAffinity info mem old).eval ans = (ret, cpuset) → 0 ≤ ret →
    ∃ buf, cpuset = some buf ∧
      (∀ j < sizeofCpuSet, buf (ublksrvGetQueueAffinity info q + j) = (ans (affinityCmd info q)).cpus j) ∧
      ublksrvGetQueueAffinity info q + sizeofCpuSet ≤ cpusetLen info
  failure : ∀ ret cpuset, (ublksrvCtrlGetAffinity info mem old).eval ans = (ret, cpuset) → ret < 0 →
    cpuset = old

theorem getAffinity_some (buf : Bytes) (old : Option Bytes) :
    (ublksrvCtrlGetAffinity info (some buf) old).eval ans =
      if ((affinityLoop info info.nrHwQueues.toNat 0 buf).eval ans).1 < 0 then
        (((affinityLoop info info.nrHwQueues.toNat 0 buf).eval ans).1, old)
      else (0, some ((affinityLoop info info.nrHwQueues.toNat 0 buf).eval ans).2) := by
  simp only [ublksrvCtrlGetAffinity, Program.eval_bind]
  split_ifs <;> rfl

theorem getAffinity_ok (old : Option Bytes)
    (h : ((affinityLoop info info.nrHwQueues.toNat 0 buf).eval ans).1 = 0) :
    (ublksrvCtrlGetAffinity info (some buf) old).eval ans =
      (0, some ((affinityLoop info info.nrHwQueues.toNat 0 buf).eval ans).2) := by
  rw [getAffinity_some, h, if_neg (by decide)]

theorem reader_inside (hq : q < info.nrHwQueues.toNat) :
    ublksrvGetQueueAffinity info q + sizeofCpuSet ≤ cpusetLen info := by
  have hmul : recordLen info * (q + 1) ≤ cpusetLen info := Nat.mul_le_mul_left _ hq
  unfold ublksrvGetQueueAffinity
  simp only [recordLen, pathLen, sizeofCpuSet, ublkcPathMax] at hmul ⊢
  split_ifs at hmul ⊢ <;> omega

theorem reader_eq (h : ublkIsUnprivileged info = false ∨ q = 0) :
    ublksrvGetQueueAffinity info q = q * recordLen info + pathLen info := by
  unfold ublksrvGetQueueAffinity recordLen pathLen
  split_ifs with hu
  · rcases h with h | rfl
    · rw [h] at hu
      cases hu
    · simp
  · rfl

theorem reader_lt (hu : ublkIsUnprivileged info = true) (hq : q ≠ 0) :
    ublksrvGetQueueAffinity info q < q * recordLen info + pathLen info := by
  simp only [ublksrvGetQueueAffinity, recordLen, pathLen, hu, ↓reduceIte, sizeofCpuSet, ublkcPathMax]
  omega

theorem agrees_of_reader_eq (hq : q < info.nrHwQueues.toNat)
    (h : ublksrvGetQueueAffinity info q = q * recordLen info + pathLen info) (mem old : Option Bytes) :
    Agrees info q ans mem old := by
  cases mem with
  | none =>
    constructor
    · intro ret cpuset hr h0
      cases hr
      exact absurd h0 (by decide)
    · intro ret cpuset hr _
      cases hr
      rfl
  | some buf =>
    constructor
    · intro ret cpuset hr h0
      rw [getAffinity_some] at hr
      split_ifs at hr with hret
      · cases hr
        exact absurd hret (Int32.not_lt.mpr h0)
      · cases hr
        refine ⟨_, rfl, ?_, reader_inside hq⟩
        intro j hj
        rw [h]
        exact affinityLoop_record hret (Nat.zero_le q) (by omega) hj
    · intro ret cpuset hr hlt
      rw [getAffinity_some] at hr
      split_ifs at hr
      · cases hr
        rfl
      · cases hr
        exact absurd hlt (by decide)

theorem affinityCmd_ne {k : ℕ} (h : k ≠ q) : affinityCmd info k ≠ affinityCmd info q := by
  intro he
  have hbuf := congrArg CtrlCmd.buf he
  simp only [affinityCmd, ublksrvCtrlInitCmd, ↓reduceIte, Option.some.injEq, Prod.mk.injEq,
    Buffer.cpuset.injEq, and_true] at hbuf
  have hpos : 0 < recordLen info := Nat.lt_of_lt_of_le (by decide) (Nat.le_add_right sizeofCpuSet _)
  exact h (Nat.eq_of_mul_eq_mul_right hpos hbuf)

theorem affinityLoop_ok (h : ∀ c, (ans c).res = 0) : ((affinityLoop info n i buf).eval ans).1 = 0 := by
  induction n generalizing i buf with
  | zero => rfl
  | succ n ih =>
    rw [affinityLoop_succ, if_neg]
    · exact ih
    · rw [h]
      decide

def zeroAnswer (info : CtrlDevInfo) : Response := ⟨0, info, fun _ => 0⟩

def answerWith (info : CtrlDevInfo) (q : ℕ) (b : UInt8) (c : CtrlCmd) : Response :=
  if c = affinityCmd info q then ⟨0, info, fun _ => b⟩ else zeroAnswer info

theorem answerWith_res (b : UInt8) (c : CtrlCmd) : (answerWith info q b c).res = 0 := by
  unfold answerWith
  split_ifs <;> rfl

theorem answerWith_ne (b : UInt8) {k : ℕ} (h : k ≠ q) :
    answerWith info q b (affinityCmd info k) = zeroAnswer info := if_neg (affinityCmd_ne h)

theorem not_agrees (hu : ublkIsUnprivileged info = true) (h0 : q ≠ 0) :
    ∃ ans, ¬ Agrees info q ans (some fun _ => 0) none := by
  have hlt := reader_lt (q := q) hu h0
  generalize hv : ((affinityLoop info info.nrHwQueues.toNat 0 fun _ => 0).eval
    (answerWith info q 0)).2 (ublksrvGetQueueAffinity info q) = v
  refine ⟨answerWith info q (v + 1), ?_⟩
  intro h
  have hret : ((affinityLoop info info.nrHwQueues.toNat 0 fun _ => 0).eval
      (answerWith info q (v + 1))).1 = 0 := affinityLoop_ok (answerWith_res _)
  have heval := getAffinity_ok none hret
  obtain ⟨buf, hbuf, hbytes, -⟩ := h.success _ _ heval (by decide)
  have hbyte := hbytes 0 (by decide)
  rw [← Option.some.inj hbuf, Nat.add_zero, answerWith, if_pos rfl] at hbyte
  have hsame : ((affinityLoop info info.nrHwQueues.toNat 0 fun _ => 0).eval (answerWith info q 0)).2 _ =
      ((affinityLoop info info.nrHwQueues.toNat 0 fun _ => 0).eval (answerWith info q (v + 1))).2 _ :=
    affinityLoop_congr (fun c => by rw [answerWith_res, answerWith_res])
      (fun k hk => by rw [answerWith_ne _ hk, answerWith_ne _ hk]) (fun _ _ => rfl) hlt
  rw [hv, hbyte] at hsame
  simp at hsame

theorem affinity_agrees (info : CtrlDevInfo) (q : ℕ) (hq : q < info.nrHwQueues.toNat) :
    (∀ ans mem old, Agrees info q ans mem old) ↔ ublkIsUnprivileged info = false ∨ q = 0 := by
  constructor
  · intro h
    by_contra hc
    rw [not_or, Bool.not_eq_false] at hc
    obtain ⟨ans, hans⟩ := not_agrees hc.1 hc.2
    exact hans (h ans _ _)
  · intro h ans mem old
    exact agrees_of_reader_eq hq (reader_eq h) mem old

def privileged : CtrlDevInfo := ⟨2, 0, 0⟩

theorem affinity_agrees_privileged : privileged.nrHwQueues = 2 ∧
    ∀ ans mem old, Agrees privileged 1 ans mem old :=
  ⟨rfl, (affinity_agrees privileged 1 (by decide)).mpr (.inl (by decide))⟩

theorem not_affinity_agrees : ¬ ∀ (info : CtrlDevInfo) (q : ℕ), q < info.nrHwQueues.toNat →
    ∀ ans mem old, Agrees info q ans mem old := by
  intro h
  obtain ⟨ans, hans⟩ : ∃ ans, ¬ Agrees ⟨2, 0, ublkFUnprivilegedDev⟩ 1 ans (some fun _ => 0) none :=
    not_agrees (by decide) (by decide)
  exact hans (h _ 1 (by decide) ans _ _)

end GoUblksrv.Control
