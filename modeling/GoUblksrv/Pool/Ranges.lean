import GoUblksrv.Pool.Transfer

/-!
The range of a request, from the parameters of the device to the result of the last call:
sectors become bytes in 32 and 64 bits, signed and unsigned, in C and in Go.
-/

namespace GoUblksrv.Pool

structure ParamBasic where
  attrs : UInt32
  logicalBsShift : UInt8
  physicalBsShift : UInt8
  ioOptShift : UInt8
  ioMinShift : UInt8
  maxSectors : UInt32
  devSectors : UInt64
  deriving DecidableEq, Repr

structure ParamDiscard where
  discardGranularity : UInt32
  maxDiscardSectors : UInt32
  maxDiscardSegments : UInt16
  deriving DecidableEq, Repr

structure Params where
  len : UInt32
  types : UInt32
  basic : ParamBasic
  discard : ParamDiscard
  deriving DecidableEq, Repr

abbrev sizeofParams : UInt32 := 112
abbrev ublkParamTypeBasic : UInt32 := (1 : UInt32) <<< 0
abbrev ublkParamTypeDiscard : UInt32 := (1 : UInt32) <<< 1
abbrev uintMax : UInt32 := 0xffffffff

def initParams (maxIoBufBytes : UInt32) (devSectors : UInt64) : Params where
  len := sizeofParams
  types := ublkParamTypeBasic ||| ublkParamTypeDiscard
  basic :=
    { attrs := 0
      logicalBsShift := 9
      physicalBsShift := 12
      ioOptShift := 12
      ioMinShift := 9
      maxSectors := maxIoBufBytes >>> 9
      devSectors := devSectors }
  discard :=
    { discardGranularity := (1 : UInt32) <<< 9
      maxDiscardSectors := uintMax >>> 9
      maxDiscardSegments := 1 }

def sectors (size : Int64) : UInt64 := size.toUInt64 >>> 9

def isReadWrite (iod : IoDesc) : Bool :=
  ublksrvGetOp iod == ublkIoOpRead || ublksrvGetOp iod == ublkIoOpWrite

/-- The driver keeps to the parameters. -/
def Params.admits (p : Params) (iod : IoDesc) : Bool :=
  (isReadWrite iod && decide (iod.nrSectors.toNat ≤ p.basic.maxSectors.toNat) ||
    ublksrvGetOp iod == ublkIoOpDiscard &&
      decide (iod.nrSectors.toNat ≤ p.discard.maxDiscardSectors.toNat)) &&
  decide (iod.startSector.toNat + iod.nrSectors.toNat ≤ p.basic.devSectors.toNat)

def Admitted (p : Params) (_ : State) : Act → Bool
  | .deliver _ _ iod _ _ => p.admits iod
  | .dispatch | .dispatchSend | .handle .. | .handlerSend _ | .task _ => true

def callLen (r : Request) : Method → ℕ
  | .read => r.size.toNat
  | .write => r.wData.len
  | .unmap => r.size.toNat
  | .ping => 0

variable (size : Int64) (iod : IoDesc)

structure Converted (tag : ℕ) : Prop where
  offset : (longhornBuildReq .little iod (.ofNat tag) (reqToLonghornCmdType iod)).offset.toNat =
    iod.startSector.toNat * 512
  msgSize : (longhornBuildReq .little iod (.ofNat tag) (reqToLonghornCmdType iod)).size.toNat =
    iod.nrSectors.toNat * 512
  dataLength : reqToLonghornCmdType iod = longhornCmdTypeWrite →
    (longhornBuildReq .little iod (.ofNat tag) (reqToLonghornCmdType iod)).dataLength.toNat =
      iod.nrSectors.toNat * 512
  iovLen : iovLen iod = iod.nrSectors.toNat * 512
  range : (iod.startSector.toNat * 512 + iod.nrSectors.toNat * 512 : ℤ) ≤ size.toInt

structure Called (r : Request) (m : Method) : Prop where
  method : m = .read ∨ m = .write ∨ m = .unmap
  offset : r.offset.toInt = iod.startSector.toNat * 512
  reqSize : r.size.toNat = iod.nrSectors.toNat * 512
  len : callLen r m = iod.nrSectors.toNat * 512
  nonneg : 0 ≤ r.offset.toInt
  range : r.offset.toInt + callLen r m ≤ size.toInt
  reslice : m = .read → r.size.toNat ≤ rDataCap

variable (s : State)

structure RangeSafe : Prop where
  converted : ∀ t ∈ s.tasks, Converted size t.iod t.tag ∧ t.dataLen = t.iod.nrSectors.toNat * 512
  called : ∀ h ∈ s.handlers, ∃ t ∈ s.tasks, t.obj = h.obj ∧ t.pc = .recvComplete ∧
    Called size t.iod (s.objs h.obj) h.method
  copied : ∀ t ∈ s.tasks, t.pc = .copyOut → t.opType = longhornCmdTypeRead →
    min t.dataLen (s.objs t.obj).rLen = t.iod.nrSectors.toNat * 512
  result : ∀ t ∈ s.tasks, t.pc = .finalRes → t.opType ≠ longhornCmdTypeUnmap →
    (getNrSectors (s.iods t.q t.tag) <<< 9).toInt32.toInt = (getNrSectors (s.iods t.q t.tag)).toNat * 512
  committed : ∀ t ∈ s.tasks, isReadWrite t.iod = true → t.ownErr = false → ∀ c ∈ t.commits,
    0 ≤ c.res.toInt ∧ c.res.toInt = t.iod.nrSectors.toNat * 512

variable {size iod s} {s' : State} {a : Act} {t : Task} {maxIoBufBytes : UInt32} {C : State → Act → Prop}

theorem sectors_toNat (hs : 0 ≤ size.toInt) : ((sectors size).toNat * 512 : ℤ) ≤ size.toInt := by
  have hnat : (size.toUInt64.toNat : ℤ) = size.toInt := by
    have hbits : size.toInt = size.toBitVec.toInt := rfl
    have hmsb : size.toBitVec.msb = false := by
      rw [BitVec.msb_eq_toInt, decide_eq_false_iff_not]
      omega
    rw [hbits, BitVec.toInt_eq_toNat_of_msb hmsb]
    rfl
  have hshift : (sectors size).toNat = size.toUInt64.toNat / 512 := by
    rw [sectors, UInt64.toNat_shiftRight]
    change size.toUInt64.toNat >>> 9 = _
    rw [Nat.shiftRight_eq_div_pow]
  rw [hshift, ← hnat]
  omega

theorem Params.admits_iff {p : Params} : p.admits iod = true ↔
    (isReadWrite iod = true ∧ iod.nrSectors.toNat ≤ p.basic.maxSectors.toNat ∨
      ublksrvGetOp iod = ublkIoOpDiscard ∧ iod.nrSectors.toNat ≤ p.discard.maxDiscardSectors.toNat) ∧
    iod.startSector.toNat + iod.nrSectors.toNat ≤ p.basic.devSectors.toNat := by
  simp only [Params.admits, Bool.and_eq_true, Bool.or_eq_true, decide_eq_true_eq, beq_iff_eq]

structure Bounded (size : Int64) (iod : IoDesc) : Prop where
  op : isReadWrite iod = true ∧ iod.nrSectors.toNat ≤ 1024 ∨ ublksrvGetOp iod = ublkIoOpDiscard
  nrSectors : iod.nrSectors.toNat < 2 ^ 23
  startSector : iod.startSector.toNat < 2 ^ 54
  range : (iod.startSector.toNat * 512 + iod.nrSectors.toNat * 512 : ℤ) ≤ size.toInt

theorem bounded_of_admits (hs : 0 ≤ size.toInt) (hb : maxIoBufBytes.toNat ≤ defBufSize)
    (h : (initParams maxIoBufBytes (sectors size)).admits iod = true) : Bounded size iod := by
  have hmax : (maxIoBufBytes >>> 9).toNat ≤ 1024 := by
    rw [UInt32.toNat_shiftRight]
    change maxIoBufBytes.toNat >>> 9 ≤ _
    rw [Nat.shiftRight_eq_div_pow]
    have hdef : defBufSize = 524288 := rfl
    omega
  have hdiscard : (uintMax >>> 9).toNat = 2 ^ 23 - 1 := rfl
  have hsize : size.toInt < 2 ^ 63 := by
    have := Int64.toInt_lt size
    omega
  have hsec := sectors_toNat hs
  obtain ⟨hop, hend⟩ := Params.admits_iff.mp h
  simp only [initParams] at hop hend
  have hrange : (iod.startSector.toNat * 512 + iod.nrSectors.toNat * 512 : ℤ) ≤ size.toInt := by omega
  constructor
  · rcases hop with ⟨hrw, hn⟩ | ⟨hd, -⟩
    · exact .inl ⟨hrw, hn.trans hmax⟩
    · exact .inr hd
  · rcases hop with ⟨-, hn⟩ | ⟨-, hn⟩
    · omega
    · omega
  · omega
  · exact hrange

theorem Bounded.converted (h : Bounded size iod) (tag : ℕ) : Converted size iod tag := by
  have hshl := shl9_toNat h.nrSectors
  constructor
  · exact shl9_toNat64 h.startSector
  · exact hshl
  · intro hw
    change UInt32.toNat (if reqToLonghornCmdType iod = longhornCmdTypeWrite then _ else _) = _
    rw [if_pos hw]
    exact hshl
  · exact hshl
  · exact h.range

theorem Step.descriptors (h : Step s a s') (ht : t ∈ s'.tasks) :
    (∃ u ∈ s.tasks, u.iod = t.iod) ∨ ∃ q tag buf i, a = .deliver q tag t.iod buf i := by
  cases hd : a.delivers with
  | false =>
    obtain ⟨k, hk⟩ := List.mem_iff_getElem?.mp ht
    obtain ⟨u, hu, hs, -⟩ := (h.frame hd).tasks k t hk
    exact .inl ⟨u, List.mem_of_getElem? hu, hs.iod.symm⟩
  | true =>
    cases h with
    | deliver q tag iod buf i x his hfr hx =>
      rcases List.mem_append.mp ht with ht | ht
      · exact .inl ⟨t, ht, rfl⟩
      · rw [List.mem_singleton.mp ht]
        exact .inr ⟨q, tag, buf, i, rfl⟩
    | _ => cases hd

theorem admits_reach {p : Params} (hC : ∀ s a, C s a → Admitted p s a = true) (h : machine.Reach C s) :
    ∀ t ∈ s.tasks, p.admits t.iod = true := by
  apply h.invariant (I := fun s => ∀ t ∈ s.tasks, p.admits t.iod = true)
  · rintro t ⟨iods, bufs, rfl⟩
    simp [start]
  · intro s a s' _ hi hc hs t ht
    rcases (step_cases hs).descriptors ht with ⟨u, hu, he⟩ | ⟨q, tag, buf, i, rfl⟩
    · exact he ▸ hi u hu
    · exact hC s _ hc

theorem runMethod_offset {r r' : Request} {m : Method} {reply : Reply} (h : runMethod r m reply = some r') :
    r'.offset = r.offset := by
  cases m with
  | read =>
    simp only [runMethod] at h
    split at h <;> cases h
    rfl
  | write =>
    simp only [runMethod] at h
    split at h <;> cases h
    rfl
  | unmap | ping =>
    cases h
    rfl

theorem Step.offset (h : Step s a s') (hd : a.delivers = false) :
    ∀ o, (s'.objs o).offset = (s.objs o).offset := by
  cases h with
  | deliver => cases hd
  | dispatchSend | handlerSend => exact setObj_field Request.offset rfl
  | handle j h reply r hj hs hr => exact setObj_field Request.offset (runMethod_offset hr)
  | recvComplete k t ht hp hlt => exact setObj_field Request.offset rfl
  | _ => exact fun o => rfl

/-- The object of a request has its offset until the goroutine has put it back. -/
def Located (s : State) : Prop :=
  ∀ t ∈ s.tasks, t.active = true → (s.objs t.obj).offset = (t.iod.startSector <<< 9).toInt64

theorem located_step (hc : Custody s) (hi : Located s) (h : Step s a s') : Located s' := by
  cases hd : a.delivers with
  | false =>
    intro t ht ha
    obtain ⟨k, hk⟩ := List.mem_iff_getElem?.mp ht
    obtain ⟨u, hu, hs, hact⟩ := (h.frame hd).tasks k t hk
    rw [h.offset hd, hs.obj, hs.iod]
    exact hi u (List.mem_of_getElem? hu) (hact ha)
  | true =>
    cases h with
    | deliver q tag iod buf i x his hfr hx =>
      intro t ht ha
      rcases List.mem_append.mp ht with ht | ht
      · have hne := hc.not_free (List.mem_of_getElem? hx) ht ha
        simpa [onRequestAsync, State.setObj, hne] using hi t ht ha
      · rw [List.mem_singleton.mp ht]
        simp [onRequestAsync, State.setObj, load, longhornBuildReq, cpuToLe64]
    | _ => cases hd

theorem located_reach (h : machine.Reach C s) : Located s := by
  refine h.invariant ?_ fun s a s' hr hi _ hs => located_step (custody_reach hr) hi (step_cases hs)
  rintro t ⟨iods, bufs, rfl⟩
  simp [Located, start]

theorem reqToLonghornCmdType_readWrite (h : isReadWrite iod = true) :
    reqToLonghornCmdType iod = longhornCmdTypeRead ∨ reqToLonghornCmdType iod = longhornCmdTypeWrite := by
  simp only [isReadWrite, Bool.or_eq_true, beq_iff_eq] at h
  unfold reqToLonghornCmdType
  rcases h with h | h
  · rw [if_pos h]
    exact .inl rfl
  · rw [h]
    exact .inr rfl

theorem reqToLonghornCmdType_discard (h : ublksrvGetOp iod = ublkIoOpDiscard) :
    reqToLonghornCmdType iod = longhornCmdTypeUnmap := by
  unfold reqToLonghornCmdType
  rw [h]
  rfl

theorem Custody.method_cases (hc : Custody s) {h : Handler} (hm : h ∈ s.handlers) {k : ℕ}
    (ht : s.tasks[k]? = some t) (ha : t.active = true) (ho : t.obj = h.obj) (hb : Bounded size t.iod) :
    h.method = .read ∧ t.iod.nrSectors.toNat ≤ 1024 ∨
      h.method = .write ∧ t.opType = longhornCmdTypeWrite ∨ h.method = .unmap := by
  have hop := (hc.captured k t ht).opType
  rcases hb.op with ⟨hrw, hn⟩ | hd
  · obtain ⟨hread, hwrite⟩ := hc.method_eq hm ht ha ho
    rcases reqToLonghornCmdType_readWrite hrw with hr | hw
    · exact .inl ⟨hread (hop.trans hr), hn⟩
    · exact .inr (.inl ⟨hwrite (hop.trans hw), hop.trans hw⟩)
  · have hmeth := hc.methods h hm
    rw [← ho, (hc.loaded k t ht ha).type, hop, reqToLonghornCmdType_discard hd] at hmeth
    exact .inr (.inr (Option.some.inj hmeth).symm)

theorem Custody.called (hc : Custody s) (hl : Located s) {h : Handler} (hm : h ∈ s.handlers)
    (hb : ∀ t ∈ s.tasks, Bounded size t.iod) :
    ∃ t ∈ s.tasks, t.obj = h.obj ∧ t.pc = .recvComplete ∧
      Called size t.iod (s.objs h.obj) h.method := by
  obtain ⟨j, hj⟩ := List.mem_iff_getElem?.mp hm
  obtain ⟨t, ht, hto, hp⟩ := hc.owner (work_pos_of_handler hj)
  have hmem := List.mem_of_getElem? ht
  have ha : t.active = true := by simp [Task.active, hp]
  have hbound := hb t hmem
  have hload := hto ▸ hc.loaded _ t ht ha
  have hcap := hc.captured _ t ht
  have hshl := shl9_toNat hbound.nrSectors
  have hsize : (s.objs h.obj).size.toNat = t.iod.nrSectors.toNat * 512 := by rw [hload.size, hshl]
  have hoff : (s.objs h.obj).offset.toInt = t.iod.startSector.toNat * 512 := by
    have hshl := shl9_toNat64 hbound.startSector
    have hlt := hbound.startSector
    rw [← hto, hl t hmem ha, toInt64_toInt (by omega), hshl]
    rfl
  have hwlen : t.opType = longhornCmdTypeWrite →
      (s.objs h.obj).wData.len = t.iod.nrSectors.toNat * 512 := by
    intro hw
    rw [hload.wData hw, hcap.dataLen, iovLen, hshl]
  have hcases := hc.method_cases hm ht ha hto hbound
  have hlen : callLen (s.objs h.obj) h.method = t.iod.nrSectors.toNat * 512 := by
    rcases hcases with ⟨hm, -⟩ | ⟨hm, hop⟩ | hm
    · rw [hm]
      exact hsize
    · rw [hm]
      exact hwlen hop
    · rw [hm]
      exact hsize
  have hrange := hbound.range
  refine ⟨t, hmem, hto, hp, ?_⟩
  constructor
  · rcases hcases with ⟨hm, -⟩ | ⟨hm, -⟩ | hm
    · exact .inl hm
    · exact .inr (.inl hm)
    · exact .inr (.inr hm)
  · exact hoff
  · exact hsize
  · exact hlen
  · omega
  · rw [hoff, hlen]
    push_cast
    exact hrange
  · intro hread
    rcases hcases with ⟨-, hn⟩ | ⟨hm, -⟩ | hm
    · rw [hsize]
      change _ ≤ 524288
      omega
    · rw [hread] at hm
      cases hm
    · rw [hread] at hm
      cases hm

theorem range_safe (size : Int64) (maxIoBufBytes : UInt32) (hs : 0 ≤ size.toInt)
    (hb : maxIoBufBytes.toNat ≤ defBufSize) (s : State)
    (h : machine.Reach (fun s a => Admitted (initParams maxIoBufBytes (sectors size)) s a = true ∧
      NoError a = true) s) : RangeSafe size s := by
  have hadm := admits_reach (fun _ _ hc => hc.1) h
  have hbound : ∀ t ∈ s.tasks, Bounded size t.iod := fun t ht => bounded_of_admits hs hb (hadm t ht)
  have hc := custody_reach h
  have hstage := stage_reach h
  have hsound : ∀ t ∈ s.tasks, t.pc.decided = true → t.failed = false :=
    fun t ht hd => sound_reach (fun _ _ _ hc _ => hc.2) h ht hd
  have htimely : machine.Reach Timely s := (timely_reach (fun _ _ _ hc _ => hc.2) h).mono fun _ _ hc => hc.2
  have hlen : ∀ t ∈ s.tasks, t.dataLen = t.iod.nrSectors.toNat * 512 := by
    intro t ht
    obtain ⟨k, hk⟩ := List.mem_iff_getElem?.mp ht
    rw [(hc.captured k t hk).dataLen]
    exact shl9_toNat (hbound t ht).nrSectors
  constructor
  · intro t ht
    exact ⟨(hbound t ht).converted t.tag, hlen t ht⟩
  · intro g hg
    exact hc.called (located_reach h) hg hbound
  · intro t ht hp hop
    obtain ⟨k, hk⟩ := List.mem_iff_getElem?.mp ht
    obtain ⟨reply, -, hread⟩ := (hstage t ht).received (by simp [hp, TaskPc.received])
      (by rw [hop]; decide)
    have hrlen := (hread hop).1
    rw [(hc.loaded k t hk (by simp [Task.active, hp])).size, shl9_toNat (hbound t ht).nrSectors] at hrlen
    rw [hrlen, hlen t ht, Nat.min_self]
  · intro t ht hp hop
    have hn : t.commits = [] := by
      have hrep := (report_reach htimely t ht).reported
      have hf := hsound t ht (by simp [hp, TaskPc.decided])
      simpa [Task.Reported, hp, hf, Task.results] using hrep
    obtain ⟨k, hk⟩ := List.mem_iff_getElem?.mp ht
    rw [(report_reach htimely t ht).current hn, getNrSectors]
    have hrw : t.iod.nrSectors.toNat ≤ 1024 := by
      rcases (hbound t ht).op with ⟨-, hn⟩ | hd
      · exact hn
      · exact absurd ((hc.captured k t hk).opType.trans (reqToLonghornCmdType_discard hd)) hop
    have hshl := shl9_toNat (hbound t ht).nrSectors
    rw [toInt32_toInt (by omega), hshl]
    rfl
  · intro t ht hrw _ c hcm
    obtain ⟨k, hk⟩ := List.mem_iff_getElem?.mp ht
    have hrep := (report_reach htimely t ht).reported
    have hne := List.ne_nil_of_mem hcm
    have hdec := (head_results hrep (List.head?_eq_some_head hne)).1
    have hres := (results_sound hrep (hsound t ht hdec) hcm).2
    have hop : ublksrvGetOp t.iod = ublkIoOpRead ∨ ublksrvGetOp t.iod = ublkIoOpWrite := by
      simpa [isReadWrite] using hrw
    have hval : c.res.toInt = t.iod.nrSectors.toNat * 512 := by
      rw [hres, finalRes_dataLen (hc.captured k t hk) hop, hlen t ht]
      rfl
    constructor
    · omega
    · exact hval

def wideParams : Params := initParams 524288 (sectors 8589934592)

def admittedRun (ok : Act → Bool) (as : List Act) : Option State :=
  machine.runIf (fun s a => Admitted wideParams s a && ok a) (start (fun _ _ => ⟨0, 0, 0, 0⟩) fun _ _ _ => 0)
    as

/-- The longest discard is served while a read is with its handler. -/
def longDiscard : List Act :=
  [.deliver 0 0 ⟨3, 8388607, 8388608, 0⟩ (fun _ => 0) 0, .deliver 0 1 ⟨0, 1024, 16776192, 0⟩ (fun _ => 0) 0,
    .task 0, .task 1, .dispatch, .dispatch, .handle 0 ⟨0, false, fun _ => 0⟩, .handlerSend 0] ++
    List.replicate 5 (.task 0)

set_option maxRecDepth 8000

theorem longDiscard_runs : (admittedRun NoError longDiscard).isSome = true := by decide +kernel

theorem range_safe_longDiscard : RangeSafe 8589934592 ((admittedRun NoError longDiscard).get longDiscard_runs) :=
  range_safe 8589934592 524288 (by decide) (by decide) _
    (.of_runIf (.init ⟨_, _, rfl⟩) (fun _ _ h => (Bool.and_eq_true _ _).mp h) (Option.some_get _).symm)

/-- The driver reuses the tag of a failed read for the longest discard. -/
def failedThenDiscard : List Act :=
  [.deliver 0 0 ⟨0, 8, 0, 0⟩ (fun _ => 0) 0, .task 0, .dispatch, .handle 0 ⟨0, true, fun _ => 0⟩,
    .handlerSend 0, .task 0, .task 0, .task 0, .deliver 0 0 ⟨3, 8388607, 0, 0⟩ (fun _ => 0) 0, .task 0]

theorem failedThenDiscard_runs : (admittedRun (fun _ => true) failedThenDiscard).isSome = true := by
  decide +kernel

def failedThenDiscarded : State :=
  (admittedRun (fun _ => true) failedThenDiscard).get failedThenDiscard_runs

theorem not_range_safe_failed :
    ¬ ∀ (size : Int64) (maxIoBufBytes : UInt32), 0 ≤ size.toInt → maxIoBufBytes.toNat ≤ defBufSize →
      ∀ s, machine.Reach (fun s a => Admitted (initParams maxIoBufBytes (sectors size)) s a = true) s →
      RangeSafe size s := by
  intro h
  have hr : machine.Reach (fun s a => Admitted wideParams s a = true) failedThenDiscarded :=
    .of_runIf (.init ⟨_, _, rfl⟩) (fun _ _ h => ((Bool.and_eq_true _ _).mp h).1) (Option.some_get _).symm
  have hsafe := h 8589934592 524288 (by decide) (by decide) _ hr
  have hresult := hsafe.result (failedThenDiscarded.tasks.head (by decide +kernel)) (List.head_mem _)
    (by decide +kernel) (by decide +kernel)
  revert hresult
  decide +kernel

end GoUblksrv.Pool
