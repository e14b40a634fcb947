import GoUblksrv.Lib.Program
import GoUblksrv.Control.Commands
import GoUblksrv.Device.Actors
import GoUblksrv.Pool.Ranges
import GoUblksrv.Queue.Bounds

/-!
The geometry of a device on its way from `UblkParams` to the driver and back into the
`DeviceInfo` of a later `GetInfo`. The driver answers the commands as it likes; what it
promises to remember is a hypothesis.
-/

namespace GoUblksrv.Geometry

structure UblkParams where
  queues : Int64
  queueDepth : Int64
  size : Int64
  blockSize : Int64
  deriving DecidableEq, Repr

structure UblkDevice where
  id : Int64
  queues : Int64
  queueDepth : Int64
  size : Int64
  blockSize : Int64
  deriving DecidableEq, Repr

def newUblkDevice (params : UblkParams) : UblkDevice where
  id := -1
  queues := params.queues
  queueDepth := params.queueDepth
  size := params.size
  blockSize := if params.blockSize = 0 then 4096 else params.blockSize

structure DevData where
  devId : Int32
  maxIoBufBytes : UInt32
  nrHwQueues : UInt16
  queueDepth : UInt16
  runDir : Option String
  flags : UInt64
  ublksrvFlags : UInt64
  deriving DecidableEq, Repr

structure CtrlDevInfo where
  nrHwQueues : UInt16
  queueDepth : UInt16
  state : UInt16
  maxIoBufBytes : UInt32
  devId : UInt32
  ublksrvPid : Int32
  flags : UInt64
  ublksrvFlags : UInt64
  ownerUid : UInt32
  ownerGid : UInt32
  deriving DecidableEq, Repr

structure DeviceInfo where
  id : Int64
  nrHwQueues : Int64
  queueDepth : Int64
  state : Int64
  maxIoBufBytes : UInt32
  ublksrvPid : Int64
  flags : UInt64
  ublksrvFlags : UInt64
  ownerUid : UInt32
  ownerGid : UInt32
  size : Int64
  blockSize : Int64
  deriving DecidableEq, Repr

abbrev defNrHwQueues : Int64 := 1
abbrev defQd : Int64 := 128
abbrev ublksrvPidDir : String := "/tmp/ublksrvd"

inductive Call
  | mkdirAll (path : String)
  | openCtrl
  | ringInit
  | addDev (ioctl : Bool) (info : CtrlDevInfo)
  | setParams (devId : UInt32) (params : Pool.Params)
  | getDevInfo (op : Control.CmdOp) (devId : UInt32)
  | getParams (devId : UInt32)
  deriving DecidableEq, Repr

/-- The value of a call, what the record that it points to then holds, and the text of a Go error. -/
structure Reply where
  res : Int32
  info : CtrlDevInfo
  params : Pool.Params
  text : String
  deriving DecidableEq, Repr

abbrev Prog := Program Call Reply

def call (c : Call) : Prog Reply := .ask c .done

/-- What `ublksrv_ctrl_init` copies into zeroed memory. -/
def DevData.info (data : DevData) : CtrlDevInfo where
  nrHwQueues := data.nrHwQueues
  queueDepth := data.queueDepth
  state := 0
  maxIoBufBytes := data.maxIoBufBytes
  devId := data.devId.toUInt32
  ublksrvPid := 0
  flags := data.flags
  ublksrvFlags := data.ublksrvFlags
  ownerUid := 0
  ownerGid := 0

def ublksrvCtrlInit (data : DevData) : Prog (Option CtrlDevInfo) := do
  let fd ← call .openCtrl
  if fd.res < 0 then pure none
  else do
    let ring ← call .ringInit
    if ring.res < 0 then pure none else pure (some data.info)

def Reply.written (r : Reply) (info : CtrlDevInfo) : CtrlDevInfo := if r.res < 0 then info else r.info

def ublksrvCtrlAddDev (info : CtrlDevInfo) : Prog (Int32 × CtrlDevInfo) := do
  let r ← call (.addDev true info)
  if r.res < 0 then do
    let r ← call (.addDev false info)
    pure (r.res, r.written info)
  else pure (r.res, r.info)

def initParams (info : CtrlDevInfo) (devSectors : UInt64) : Prog Int32 := do
  let r ← call (.setParams info.devId (Pool.initParams info.maxIoBufBytes devSectors))
  pure r.res

def toUshort (n : Int64) : UInt16 := n.toUInt64.toUInt16

def startupData (d : UblkDevice) : DevData where
  devId := 0
  maxIoBufBytes := .ofNat defBufSize
  nrHwQueues := toUshort (if d.queues ≤ 0 then defNrHwQueues else d.queues)
  queueDepth := toUshort (if d.queueDepth ≤ 0 then defQd else d.queueDepth)
  runDir := some ublksrvPidDir
  flags := 0
  ublksrvFlags := 0

def initError (err : String) : String := "error initializing UBLKSRV device: " ++ err

/-- The goroutine of `startupC` up to its first value on `initDone`, on which the caller returns. -/
def startupDev (d : UblkDevice) (info : CtrlDevInfo) : Prog (Except String UblkDevice) := do
  let (ret, info) ← ublksrvCtrlAddDev info
  if ret < 0 then pure (.error (initError "ublksrv_ctrl_add_dev returned error"))
  else do
    let ret ← initParams info (Pool.sectors d.size)
    if ret < 0 then pure (.error (initError "ublksrv_ctrl_add_dev returned error"))
    else pure (.ok { d with id := info.devId.toUInt64.toInt64 })

def startupC (d : UblkDevice) : Prog (Except String UblkDevice) := do
  let dir ← call (.mkdirAll ublksrvPidDir)
  if dir.res < 0 then pure (.error ("error creating directory /tmp/ublksrvd: " ++ dir.text))
  else do
    let dev ← ublksrvCtrlInit (startupData d)
    match dev with
    | none => pure (.error (initError "ublksrv_ctrl_init returned nil"))
    | some info => startupDev d info

def ublkIsUnprivileged (info : CtrlDevInfo) : Bool := info.flags &&& Control.ublkFUnprivilegedDev != 0

def getInfoNoTrans (info : CtrlDevInfo) (op : Control.CmdOp) : Prog (Int32 × CtrlDevInfo) :=
  if ublkIsUnprivileged info && op.nr == .getDevInfo then pure (Control.einval, info)
  else do
    let r ← call (.getDevInfo op info.devId)
    pure (r.res, r.written info)

def getInfoOp (info : CtrlDevInfo) (nr : Control.CmdNr) : Prog (Int32 × CtrlDevInfo) := do
  let (ret, info) ← getInfoNoTrans info ⟨nr, true⟩
  if ret < 0 then getInfoNoTrans info ⟨nr, false⟩ else pure (ret, info)

def ublksrvCtrlGetInfo (info : CtrlDevInfo) : Prog (Int32 × CtrlDevInfo) := do
  let (ret, info) ← getInfoOp info .getDevInfo2
  if ret < 0 then
    if ublkIsUnprivileged info then pure (ret, info) else getInfoOp info .getDevInfo
  else pure (ret, info)

def zeroParams : Pool.Params where
  len := Pool.sizeofParams
  types := 0
  basic := ⟨0, 0, 0, 0, 0, 0, 0⟩
  discard := ⟨0, 0, 0⟩

/-- A shift of Go's `int`, which may be by more than its width. -/
def shiftInt (n : Int64) (k : UInt8) : Int64 := if k < 64 then n <<< k.toUInt64.toInt64 else 0

def decodeInfo (info : CtrlDevInfo) (params : Pool.Params) : DeviceInfo where
  id := info.devId.toUInt64.toInt64
  nrHwQueues := info.nrHwQueues.toUInt64.toInt64
  queueDepth := info.queueDepth.toUInt64.toInt64
  state := info.state.toUInt64.toInt64
  maxIoBufBytes := info.maxIoBufBytes
  ublksrvPid := info.ublksrvPid.toInt64
  flags := info.flags
  ublksrvFlags := info.ublksrvFlags
  ownerUid := info.ownerUid
  ownerGid := info.ownerGid
  size := params.basic.devSectors.toInt64 <<< 9
  blockSize := shiftInt 1 params.basic.logicalBsShift

def infoData (id : Int64) : DevData where
  devId := id.toInt32
  maxIoBufBytes := 0
  nrHwQueues := 0
  queueDepth := 0
  runDir := none
  flags := 0
  ublksrvFlags := 0

def getDeviceInfo (id : Int64) : Prog (Except String DeviceInfo) := do
  let dev ← ublksrvCtrlInit (infoData id)
  match dev with
  | none => pure (.error ("failed to init ctrl for dev " ++ toString id.toInt))
  | some info => do
    let (ret, info) ← ublksrvCtrlGetInfo info
    if ret < 0 then pure (.error ("failed to get info for dev " ++ toString id.toInt ++ ": " ++ toString ret.toInt))
    else do
      let r ← call (.getParams info.devId)
      pure (.ok (decodeInfo info (if r.res < 0 then zeroParams else r.params)))

variable {ans : Call → Reply} {d d' : UblkDevice} {info : CtrlDevInfo}

@[simp] theorem call_eval (c : Call) : (call c).eval ans = ans c := rfl

@[simp] theorem call_trace (c : Call) : (call c).trace ans = [c] := rfl

/-- Either the query failed and the record is untouched, or it is what the driver returned. -/
def Fetched (ans : Call → Reply) (info : CtrlDevInfo) (p : Int32 × CtrlDevInfo) : Prop :=
  p.1 < 0 ∧ p.2 = info ∨
    0 ≤ p.1 ∧ ∃ op, 0 ≤ (ans (.getDevInfo op info.devId)).res ∧ p.2 = (ans (.getDevInfo op info.devId)).info

variable (ans info)

theorem getInfoNoTrans_fetched (op : Control.CmdOp) :
    Fetched ans info ((getInfoNoTrans info op).eval ans) := by
  unfold getInfoNoTrans
  split_ifs
  · exact .inl ⟨(by decide : Control.einval < 0), rfl⟩
  · rw [Program.eval_bind, call_eval, Program.eval_pure]
    by_cases hr : (ans (.getDevInfo op info.devId)).res < 0
    · exact .inl ⟨hr, if_pos hr⟩
    · exact .inr ⟨Int32.not_lt.mp hr, op, Int32.not_lt.mp hr, if_neg hr⟩

theorem getInfoOp_fetched (nr : Control.CmdNr) : Fetched ans info ((getInfoOp info nr).eval ans) := by
  have h := getInfoNoTrans_fetched ans info ⟨nr, true⟩
  rw [getInfoOp, Program.eval_bind]
  generalize (getInfoNoTrans info ⟨nr, true⟩).eval ans = p at h ⊢
  obtain ⟨ret, got⟩ := p
  dsimp only [Fetched] at h ⊢
  rcases h with ⟨hneg, rfl⟩ | ⟨hpos, h⟩
  · rw [if_pos hneg]
    exact getInfoNoTrans_fetched ans got ⟨nr, false⟩
  · rw [if_neg (Int32.not_lt.mpr hpos), Program.eval_pure]
    exact .inr ⟨hpos, h⟩

theorem ublksrvCtrlGetInfo_fetched : Fetched ans info ((ublksrvCtrlGetInfo info).eval ans) := by
  have h := getInfoOp_fetched ans info .getDevInfo2
  rw [ublksrvCtrlGetInfo, Program.eval_bind]
  generalize (getInfoOp info .getDevInfo2).eval ans = p at h ⊢
  obtain ⟨ret, got⟩ := p
  dsimp only [Fetched] at h ⊢
  rcases h with ⟨hneg, rfl⟩ | ⟨hpos, h⟩
  · rw [if_pos hneg]
    split_ifs
    · exact .inl ⟨hneg, rfl⟩
    · exact getInfoOp_fetched ans got .getDevInfo
  · rw [if_neg (Int32.not_lt.mpr hpos), Program.eval_pure]
    exact .inr ⟨hpos, h⟩

theorem ublksrvCtrlInit_eval (data : DevData) :
    (ublksrvCtrlInit data).eval ans = none ∨ (ublksrvCtrlInit data).eval ans = some data.info := by
  rw [ublksrvCtrlInit, Program.eval_bind, call_eval]
  split_ifs
  · exact .inl rfl
  · rw [Program.eval_bind, call_eval]
    split_ifs
    · exact .inl rfl
    · exact .inr rfl

theorem getDeviceInfo_ok {id : Int64} {got : DeviceInfo} (h : (getDeviceInfo id).eval ans = .ok got) :
    ∃ op, 0 ≤ (ans (.getDevInfo op id.toInt32.toUInt32)).res ∧
      got = decodeInfo (ans (.getDevInfo op id.toInt32.toUInt32)).info
        (if (ans (.getParams (ans (.getDevInfo op id.toInt32.toUInt32)).info.devId)).res < 0 then zeroParams
        else (ans (.getParams (ans (.getDevInfo op id.toInt32.toUInt32)).info.devId)).params) := by
  rw [getDeviceInfo, Program.eval_bind] at h
  rcases ublksrvCtrlInit_eval ans (infoData id) with hnone | hsome
  · rw [hnone] at h
    cases h
  · rw [hsome] at h
    dsimp only at h
    rw [Program.eval_bind] at h
    have hf := ublksrvCtrlGetInfo_fetched ans (infoData id).info
    generalize (ublksrvCtrlGetInfo (infoData id).info).eval ans = p at h hf
    obtain ⟨ret, got⟩ := p
    dsimp only [Fetched] at h hf
    rcases hf with ⟨hneg, -⟩ | ⟨hpos, op, hop, rfl⟩
    · rw [if_pos hneg] at h
      cases h
    · rw [if_neg (Int32.not_lt.mpr hpos), Program.eval_bind, call_eval, Program.eval_pure] at h
      cases h
      exact ⟨op, hop, rfl⟩

theorem ublksrvCtrlAddDev_ok (h : 0 ≤ ((ublksrvCtrlAddDev info).eval ans).1) :
    ∃ ioctl, .addDev ioctl info ∈ (ublksrvCtrlAddDev info).trace ans ∧
      0 ≤ (ans (.addDev ioctl info)).res ∧
      ((ublksrvCtrlAddDev info).eval ans).2 = (ans (.addDev ioctl info)).info := by
  rw [ublksrvCtrlAddDev, Program.eval_bind, call_eval] at h ⊢
  rw [Program.trace_bind, call_trace, call_eval]
  by_cases hr : (ans (.addDev true info)).res < 0
  · rw [if_pos hr, Program.eval_bind, call_eval, Program.eval_pure] at h ⊢
    rw [Program.trace_bind, call_trace]
    exact ⟨false, by simp, h, if_neg (Int32.not_lt.mpr h)⟩
  · rw [if_neg hr, Program.eval_pure] at h ⊢
    exact ⟨true, by simp, h, rfl⟩

variable {ans}

structure Accepted (ans : Call → Reply) (d : UblkDevice) (ioctl : Bool) : Prop where
  sent : .addDev ioctl (startupData d).info ∈ (startupC d).trace ans
  added : 0 ≤ (ans (.addDev ioctl (startupData d).info)).res
  setSent : .setParams (ans (.addDev ioctl (startupData d).info)).info.devId
      (Pool.initParams (ans (.addDev ioctl (startupData d).info)).info.maxIoBufBytes (Pool.sectors d.size)) ∈
    (startupC d).trace ans
  set : 0 ≤ (ans (.setParams (ans (.addDev ioctl (startupData d).info)).info.devId
    (Pool.initParams (ans (.addDev ioctl (startupData d).info)).info.maxIoBufBytes (Pool.sectors d.size)))).res

theorem startupDev_ok (h : (startupDev d info).eval ans = .ok d') :
    ∃ ioctl, .addDev ioctl info ∈ (startupDev d info).trace ans ∧
      0 ≤ (ans (.addDev ioctl info)).res ∧
      .setParams (ans (.addDev ioctl info)).info.devId
          (Pool.initParams (ans (.addDev ioctl info)).info.maxIoBufBytes (Pool.sectors d.size)) ∈
        (startupDev d info).trace ans ∧
      0 ≤ (ans (.setParams (ans (.addDev ioctl info)).info.devId
        (Pool.initParams (ans (.addDev ioctl info)).info.maxIoBufBytes (Pool.sectors d.size)))).res ∧
      d'.id = (ans (.addDev ioctl info)).info.devId.toUInt64.toInt64 := by
  have hadd := ublksrvCtrlAddDev_ok ans info
  rw [startupDev, Program.eval_bind] at h
  rw [startupDev, Program.trace_bind]
  generalize (ublksrvCtrlAddDev info).eval ans = p at h hadd ⊢
  obtain ⟨ret, got⟩ := p
  dsimp only at h hadd ⊢
  by_cases hret : ret < 0
  · rw [if_pos hret] at h
    cases h
  obtain ⟨ioctl, hmem, hres, rfl⟩ := hadd (Int32.not_lt.mp hret)
  rw [if_neg hret, initParams, Program.eval_bind, Program.eval_bind, call_eval, Program.eval_pure] at h
  rw [if_neg hret, initParams, Program.trace_bind, Program.trace_bind, call_trace]
  refine ⟨ioctl, by simp [hmem], hres, by simp, ?_⟩
  by_cases hset : (ans (.setParams (ans (.addDev ioctl info)).info.devId
    (Pool.initParams (ans (.addDev ioctl info)).info.maxIoBufBytes (Pool.sectors d.size)))).res < 0
  · rw [if_pos hset] at h
    cases h
  · rw [if_neg hset] at h
    cases h
    exact ⟨Int32.not_lt.mp hset, rfl⟩

theorem startupC_startupDev (h : (startupC d).eval ans = .ok d') :
    (startupDev d (startupData d).info).eval ans = .ok d' ∧
      ∀ c ∈ (startupDev d (startupData d).info).trace ans, c ∈ (startupC d).trace ans := by
  rw [startupC, Program.eval_bind, call_eval] at h
  rw [startupC, Program.trace_bind, call_trace, call_eval]
  by_cases hdir : (ans (.mkdirAll ublksrvPidDir)).res < 0
  · rw [if_pos hdir] at h
    cases h
  rw [if_neg hdir, Program.eval_bind] at h
  rw [if_neg hdir, Program.trace_bind]
  rcases ublksrvCtrlInit_eval ans (startupData d) with hnone | hsome
  · rw [hnone] at h
    cases h
  · rw [hsome] at h ⊢
    refine ⟨h, fun c hc => ?_⟩
    simp [hc]

theorem startupC_ok (h : (startupC d).eval ans = .ok d') : ∃ ioctl, Accepted ans d ioctl ∧
    d'.id = (ans (.addDev ioctl (startupData d).info)).info.devId.toUInt64.toInt64 := by
  obtain ⟨hdev, hsub⟩ := startupC_startupDev h
  obtain ⟨ioctl, hsent, hadded, hset, hset', hid⟩ := startupDev_ok _ hdev
  exact ⟨ioctl, ⟨hsub _ hsent, hadded, hsub _ hset, hset'⟩, hid⟩

theorem toUshort_toNat (n : Int64) : ((toUshort n).toNat : ℤ) = n.toInt % 2 ^ 16 := by
  have hn : n.toInt = n.toUInt64.toBitVec.toInt := rfl
  have hlt := n.toUInt64.toNat_lt
  have hnat : (toUshort n).toNat = n.toUInt64.toNat % 2 ^ 16 := by
    rw [toUshort, UInt64.toNat_toUInt16]
  rw [hn, BitVec.toInt_eq_toNat_cond, UInt64.toNat_toBitVec, hnat]
  split_ifs <;> omega

theorem toInt64_toInt {x : UInt64} (h : x.toNat < 2 ^ 63) : x.toInt64.toInt = x.toNat := by
  have hx : x.toInt64.toInt = x.toBitVec.toInt := rfl
  rw [hx, BitVec.toInt_eq_toNat_cond, UInt64.toNat_toBitVec]
  split_ifs <;> omega

theorem devId_roundTrip (x : UInt32) : x.toUInt64.toInt64.toInt32.toUInt32 = x := by
  have hbits : x.toUInt64.toInt64.toInt32.toUInt32.toBitVec = (x.toBitVec.setWidth 64).signExtend 32 := rfl
  apply UInt32.toBitVec_inj.mp
  rw [hbits, BitVec.signExtend_eq_setWidth_of_le _ (by decide), BitVec.setWidth_setWidth_of_le _ (by decide),
    BitVec.setWidth_eq]

theorem size_decode {size : Int64} (h : 0 ≤ size.toInt) :
    ((Pool.sectors size).toInt64 <<< 9).toInt = size.toInt / 512 * 512 := by
  have hbits : ((Pool.sectors size).toInt64 <<< 9).toInt =
      ((size.toUInt64.toBitVec >>> 9) <<< 9 : BitVec 64).toInt := rfl
  have hsize : size.toInt = size.toUInt64.toBitVec.toInt := rfl
  have hlt := size.toUInt64.toNat_lt
  have hnat : ((size.toUInt64.toBitVec >>> 9) <<< 9 : BitVec 64).toNat = size.toUInt64.toNat / 512 * 512 := by
    rw [BitVec.toNat_shiftLeft, BitVec.toNat_ushiftRight, UInt64.toNat_toBitVec, Nat.shiftRight_eq_div_pow,
      Nat.shiftLeft_eq]
    omega
  rw [hbits, BitVec.toInt_eq_toNat_cond, hnat]
  rw [hsize, BitVec.toInt_eq_toNat_cond, UInt64.toNat_toBitVec] at h ⊢
  split_ifs at h ⊢ <;> omega

def requested (n default : Int64) : ℤ := if n.toInt ≤ 0 then default.toInt else n.toInt

theorem toUshort_requested (n default : Int64) :
    ((toUshort (if n ≤ 0 then default else n)).toNat : ℤ) = requested n default % 2 ^ 16 := by
  have hle : n ≤ 0 ↔ n.toInt ≤ 0 := Int64.le_iff_toInt_le
  rw [toUshort_toNat, requested]
  by_cases h : n ≤ 0
  · rw [if_pos h, if_pos (hle.mp h)]
  · rw [if_neg h, if_neg fun hn => h (hle.mpr hn)]

theorem startupData_nrHwQueues (d : UblkDevice) :
    (startupData d).nrHwQueues.toNat = (Device.startupData d.queues.toInt).nrHwQueues := by
  have hsent : ((startupData d).nrHwQueues.toNat : ℤ) = requested d.queues defNrHwQueues % 2 ^ 16 :=
    toUshort_requested _ _
  have hdef : defNrHwQueues.toInt = 1 := rfl
  have hold : (Device.startupData d.queues.toInt).nrHwQueues =
      (if d.queues.toInt ≤ 0 then (1 : ℤ) else d.queues.toInt).toNat % 2 ^ 16 := rfl
  rw [requested, hdef] at hsent
  rw [hold]
  split_ifs at hsent ⊢ <;> omega

theorem startupData_queueDepth (d : UblkDevice) :
    (startupData d).queueDepth = Queue.startupDepth d.queueDepth.toInt := by
  have hsent : ((startupData d).queueDepth.toNat : ℤ) = requested d.queueDepth defQd % 2 ^ 16 :=
    toUshort_requested _ _
  have hdef : defQd.toInt = 128 := rfl
  have hold : Queue.defQd = 128 := rfl
  apply UInt16.toNat_inj.mp
  rw [requested, hdef] at hsent
  rw [Queue.startupDepth, UInt16.toNat_ofNat', hold]
  split_ifs at hsent ⊢ <;> omega

theorem requested_lt_iff {n default : Int64} (hd : default.toInt < 2 ^ 16) :
    requested n default < 2 ^ 16 ↔ n.toInt < 2 ^ 16 := by
  rw [requested]
  split_ifs <;> omega

theorem requested_nonneg {n default : Int64} (hd : 0 ≤ default.toInt) : 0 ≤ requested n default := by
  rw [requested]
  split_ifs <;> omega

def Lowered (ans : Call → Reply) (d : UblkDevice) : Prop :=
  ∃ ioctl, Accepted ans d ioctl ∧
    (ans (.addDev ioctl (startupData d).info)).info.nrHwQueues < (startupData d).nrHwQueues

/-- Two records of one device, whose state, owner and flags may differ. -/
structure SameDevice (i j : CtrlDevInfo) : Prop where
  devId : i.devId = j.devId
  nrHwQueues : i.nrHwQueues = j.nrHwQueues
  queueDepth : i.queueDepth = j.queueDepth

/-- What the driver promises: `ADD_DEV` may lower the number of queues and stores the rest, and
the queries after it return what `ADD_DEV` and `SET_PARAMS` have stored. -/
structure Remembers (before after : Call → Reply) (d : UblkDevice) : Prop where
  queues : ∀ ioctl, Accepted before d ioctl →
    (before (.addDev ioctl (startupData d).info)).info.nrHwQueues ≤ (startupData d).nrHwQueues
  queueDepth : ∀ ioctl, Accepted before d ioctl →
    (before (.addDev ioctl (startupData d).info)).info.queueDepth = (startupData d).queueDepth
  info : ∀ ioctl op, Accepted before d ioctl →
    0 ≤ (after (.getDevInfo op (before (.addDev ioctl (startupData d).info)).info.devId)).res →
    SameDevice (after (.getDevInfo op (before (.addDev ioctl (startupData d).info)).info.devId)).info
      (before (.addDev ioctl (startupData d).info)).info
  params : ∀ id p, .setParams id p ∈ (startupC d).trace before → 0 ≤ (before (.setParams id p)).res →
    0 ≤ (after (.getParams id)).res ∧ (after (.getParams id)).params = p

/-- `representable`: the driver was told the number of queues that was asked for, whether or not it lowers it. -/
structure Faithful (params : UblkParams) (lowered : Prop) (info : DeviceInfo) : Prop where
  representable : requested params.queues defNrHwQueues < 2 ^ 16
  queues : info.nrHwQueues.toInt = requested params.queues defNrHwQueues ∨ lowered
  queueDepth : info.queueDepth.toInt = requested params.queueDepth defQd
  blockSize : info.blockSize = (newUblkDevice params).blockSize
  nonneg : 0 ≤ params.size.toInt
  size : info.size.toInt = params.size.toInt / 512 * 512

variable {before after : Call → Reply} {params : UblkParams} {got : DeviceInfo}

theorem getDeviceInfo_stored (hr : Remembers before after d) (hs : (startupC d).eval before = .ok d')
    (hg : (getDeviceInfo d'.id).eval after = .ok got) :
    ∃ ioctl stored, Accepted before d ioctl ∧
      SameDevice stored (before (.addDev ioctl (startupData d).info)).info ∧
      got = decodeInfo stored
        (Pool.initParams (before (.addDev ioctl (startupData d).info)).info.maxIoBufBytes
          (Pool.sectors d.size)) := by
  obtain ⟨ioctl, hacc, hid⟩ := startupC_ok hs
  obtain ⟨op, hop, rfl⟩ := getDeviceInfo_ok after hg
  rw [hid, devId_roundTrip] at hop ⊢
  have hsame := hr.info ioctl op hacc hop
  obtain ⟨hres, hparams⟩ := hr.params _ _ hacc.setSent hacc.set
  rw [hsame.devId, if_neg (Int32.not_lt.mpr hres), hparams]
  exact ⟨ioctl, _, hacc, hsame, rfl⟩

theorem toInt_ofUshort (x : UInt16) : x.toUInt64.toInt64.toInt = x.toNat := by
  have hlt := x.toNat_lt
  rw [toInt64_toInt] <;> rw [UInt16.toNat_toUInt64]
  omega

theorem narrow_eq_iff {x : UInt16} {r : ℤ} (hx : (x.toNat : ℤ) = r % 2 ^ 16) (h : 0 ≤ r) :
    x.toUInt64.toInt64.toInt = r ↔ r < 2 ^ 16 := by
  have hlt := x.toNat_lt
  rw [toInt_ofUshort]
  constructor <;> omega

theorem queues_kept {ioctl : Bool} (hr : Remembers before after d) (hacc : Accepted before d ioctl)
    {r : ℤ} (hsent : ((startupData d).nrHwQueues.toNat : ℤ) = r % 2 ^ 16) (h : 0 ≤ r) (hlt : r < 2 ^ 16) :
    (before (.addDev ioctl (startupData d).info)).info.nrHwQueues.toUInt64.toInt64.toInt = r ∨
      Lowered before d := by
  by_cases hlow : (before (.addDev ioctl (startupData d).info)).info.nrHwQueues < (startupData d).nrHwQueues
  · exact .inr ⟨ioctl, hacc, hlow⟩
  · have hkept : (before (.addDev ioctl (startupData d).info)).info.nrHwQueues = (startupData d).nrHwQueues :=
      UInt16.le_antisymm (hr.queues ioctl hacc) (UInt16.not_lt.mp hlow)
    left
    rw [hkept]
    exact (narrow_eq_iff hsent h).mpr hlt

theorem blockSize_iff {m : UInt32} {devSectors : UInt64} {stored : CtrlDevInfo} :
    (decodeInfo stored (Pool.initParams m devSectors)).blockSize = (newUblkDevice params).blockSize ↔
      params.blockSize = 512 := by
  have hshift : (decodeInfo stored (Pool.initParams m devSectors)).blockSize = 512 := by
    change shiftInt 1 9 = 512
    decide
  rw [hshift, newUblkDevice]
  by_cases h : params.blockSize = 0
  · simp only [h, if_true]
    exact iff_of_false (by decide) (by decide)
  · simp only [h, if_false]
    exact eq_comm

theorem start_faithful_iff (hr : Remembers before after (newUblkDevice params))
    (hs : (startupC (newUblkDevice params)).eval before = .ok d')
    (hg : (getDeviceInfo d'.id).eval after = .ok got) :
    Faithful params (Lowered before (newUblkDevice params)) got ↔
      params.queues.toInt < 2 ^ 16 ∧
        params.queueDepth.toInt < 2 ^ 16 ∧ params.blockSize = 512 ∧ 0 ≤ params.size.toInt := by
  obtain ⟨ioctl, stored, hacc, hsame, rfl⟩ := getDeviceInfo_stored hr hs hg
  have hnr := queues_kept hr hacc (toUshort_requested params.queues defNrHwQueues) (requested_nonneg (by decide))
  have hqd := narrow_eq_iff (toUshort_requested params.queueDepth defQd) (requested_nonneg (by decide))
  have hstored : stored.queueDepth = (startupData (newUblkDevice params)).queueDepth :=
    hsame.queueDepth.trans (hr.queueDepth ioctl hacc)
  have hq : requested params.queues defNrHwQueues < 2 ^ 16 ↔ params.queues.toInt < 2 ^ 16 :=
    requested_lt_iff (by decide)
  rw [← hsame.nrHwQueues] at hnr
  rw [requested_lt_iff (by decide)] at hqd
  constructor
  · intro h
    refine ⟨hq.mp h.representable, hqd.mp ?_, blockSize_iff.mp h.blockSize, h.nonneg⟩
    have hdepth := h.queueDepth
    change stored.queueDepth.toUInt64.toInt64.toInt = _ at hdepth
    rw [hstored] at hdepth
    exact hdepth
  · rintro ⟨hlt, hd, hb, hn⟩
    constructor
    · exact hq.mpr hlt
    · exact hnr (hq.mpr hlt)
    · change stored.queueDepth.toUInt64.toInt64.toInt = _
      rw [hstored]
      exact hqd.mpr hd
    · exact blockSize_iff.mpr hb
    · exact hn
    · exact size_decode hn

/-- A driver that takes everything and lowers nothing, in `Start` and after it. -/
def obliging (d : UblkDevice) (c : Call) : Reply :=
  match c with
  | .addDev _ info => ⟨0, info, zeroParams, ""⟩
  | _ => ⟨0, (startupData d).info, Pool.initParams (startupData d).maxIoBufBytes (Pool.sectors d.size), ""⟩

theorem obliging_startupC (d : UblkDevice) :
    (startupC d).eval (obliging d) = .ok { d with id := 0 } ∧
      (startupC d).trace (obliging d) =
        [.mkdirAll ublksrvPidDir, .openCtrl, .ringInit, .addDev true (startupData d).info,
          .setParams 0 (Pool.initParams (startupData d).maxIoBufBytes (Pool.sectors d.size))] :=
  ⟨rfl, rfl⟩

theorem obliging_getDeviceInfo (d : UblkDevice) : (getDeviceInfo 0).eval (obliging d) =
    .ok (decodeInfo (startupData d).info
      (Pool.initParams (startupData d).maxIoBufBytes (Pool.sectors d.size))) := rfl

theorem obliging_remembers (d : UblkDevice) : Remembers (obliging d) (obliging d) d := by
  constructor
  · intro ioctl _
    exact UInt16.le_refl _
  · intro ioctl _
    rfl
  · intro ioctl op _ _
    exact ⟨rfl, rfl, rfl⟩
  · intro id p hp _
    rw [(obliging_startupC d).2] at hp
    obtain ⟨-, rfl⟩ : id = 0 ∧ p = Pool.initParams (startupData d).maxIoBufBytes (Pool.sectors d.size) := by
      simpa using hp
    exact ⟨(by decide : (0 : Int32) ≤ 0), rfl⟩

/-- One GiB with every default: the block size asked for is 4096. -/
def defaults : UblkParams := ⟨0, 0, 1073741824, 0⟩

theorem start_unfaithful :
    ¬ Faithful defaults (Lowered (obliging (newUblkDevice defaults)) (newUblkDevice defaults))
      (decodeInfo (startupData (newUblkDevice defaults)).info
        (Pool.initParams (startupData (newUblkDevice defaults)).maxIoBufBytes
          (Pool.sectors (newUblkDevice defaults).size))) := by
  rw [start_faithful_iff (obliging_remembers _) (obliging_startupC _).1 (obliging_getDeviceInfo _)]
  rintro ⟨-, -, hb, -⟩
  revert hb
  decide

theorem not_faithful :
    ¬ ∀ (before after : Call → Reply) (params : UblkParams) (d' : UblkDevice) (got : DeviceInfo),
      Remembers before after (newUblkDevice params) →
      (startupC (newUblkDevice params)).eval before = .ok d' →
      (getDeviceInfo d'.id).eval after = .ok got →
      Faithful params (Lowered before (newUblkDevice params)) got := by
  intro h
  have hf := h _ _ defaults _ _ (obliging_remembers _) (obliging_startupC _).1 (obliging_getDeviceInfo _)
  have hb := hf.blockSize
  revert hb
  decide

end GoUblksrv.Geometry
