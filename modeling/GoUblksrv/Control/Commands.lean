import GoUblksrv.Lib.Program
import Mathlib.Data.UInt
import Mathlib.Tactic.SplitIfs

namespace GoUblksrv.Control

abbrev eintr : Int32 := -4
abbrev einval : Int32 := -22
abbrev eopnotsupp : Int32 := -95

abbrev ublkcPathMax : ℕ := 32
abbrev sizeofDevInfo : ℕ := 64

inductive CmdNr
  | getQueueAffinity
  | getDevInfo
  | addDev
  | delDev
  | startDev
  | stopDev
  | getDevInfo2
  deriving DecidableEq, Repr

/-- A legacy command opcode, or the same number encoded by `_IOR` or `_IOWR`. -/
structure CmdOp where
  nr : CmdNr
  ioctl : Bool
  deriving DecidableEq, Repr

def legacyOpToIoctl (op : CmdOp) : CmdOp := { op with ioctl := true }

/-- What the control functions read of `struct ublksrv_ctrl_dev_info`. -/
structure CtrlDevInfo where
  nrHwQueues : UInt16
  devId : UInt32
  flags : UInt64
  deriving DecidableEq, Repr

def ublkFUnprivilegedDev : UInt64 := (1 : UInt64) <<< 5
def ublkFCmdIoctlEncode : UInt64 := (1 : UInt64) <<< 6

def ublkIsUnprivileged (info : CtrlDevInfo) : Bool := info.flags &&& ublkFUnprivilegedDev != 0

inductive Buffer
  | devInfo
  | path
  | cpuset (offset : ℕ)
  deriving DecidableEq, Repr

structure CtrlCmdData where
  cmdOp : CmdOp
  hasData : Bool := false
  hasBuf : Bool := false
  noTrans : Bool := false
  data : UInt64 := 0
  devPathLen : ℕ := 0
  addr : Buffer := .devInfo
  len : ℕ := 0
  deriving DecidableEq, Repr

/-- `struct ublksrv_ctrl_cmd` and the opcode, as the driver gets them. -/
structure CtrlCmd where
  cmdOp : CmdOp
  devId : UInt32
  buf : Option (Buffer × ℕ)
  data : Option (UInt64 × ℕ)
  deriving DecidableEq, Repr

def ublksrvCtrlInitCmd (info : CtrlDevInfo) (data : CtrlCmdData) : CtrlCmd where
  cmdOp := if !data.noTrans && info.flags &&& ublkFCmdIoctlEncode != 0 then legacyOpToIoctl data.cmdOp
    else data.cmdOp
  devId := info.devId
  buf := if data.hasBuf then some (data.addr, data.len) else none
  data := if data.hasData then some (data.data, data.devPathLen) else none

/-- The result of a command, and what its buffer then holds. -/
structure Response where
  res : Int32
  info : CtrlDevInfo
  cpus : ℕ → UInt8

abbrev Ctrl := Program CtrlCmd Response

variable (info : CtrlDevInfo)

def ctrlCmd (data : CtrlCmdData) : Ctrl Response := .ask (ublksrvCtrlInitCmd info data) .done

@[simp] theorem ctrlCmd_eval (ans : CtrlCmd → Response) (data : CtrlCmdData) :
    (ctrlCmd info data).eval ans = ans (ublksrvCtrlInitCmd info data) := rfl

@[simp] theorem ctrlCmd_trace (ans : CtrlCmd → Response) (data : CtrlCmdData) :
    (ctrlCmd info data).trace ans = [ublksrvCtrlInitCmd info data] := rfl

theorem ublksrvCtrlInitCmd_nr (data : CtrlCmdData) :
    (ublksrvCtrlInitCmd info data).cmdOp.nr = data.cmdOp.nr := by
  simp only [ublksrvCtrlInitCmd]
  split_ifs <;> rfl

def unPrivilegedPrepData (data : CtrlCmdData) : CtrlCmdData :=
  if ublkIsUnprivileged info then
    { data with
      hasBuf := true
      hasData := true
      len := ublkcPathMax
      devPathLen := ublkcPathMax
      addr := .path }
  else data

theorem unPrivilegedPrepData_cmdOp (data : CtrlCmdData) :
    (unPrivilegedPrepData info data).cmdOp = data.cmdOp := by
  unfold unPrivilegedPrepData
  split_ifs <;> rfl

def addDevNoTrans (op : CmdOp) : Ctrl Response :=
  ctrlCmd info { cmdOp := op, hasBuf := true, noTrans := true, addr := .devInfo, len := sizeofDevInfo }

def ublksrvCtrlAddDev : Ctrl Response := do
  let r ← addDevNoTrans info ⟨.addDev, true⟩
  if r.res < 0 then addDevNoTrans info ⟨.addDev, false⟩ else pure r

def ublksrvCtrlStartDev (daemonPid : UInt64) : Ctrl Int32 := do
  let data := unPrivilegedPrepData info { cmdOp := ⟨.startDev, false⟩, hasData := true }
  let r ← ctrlCmd info { data with data := daemonPid }
  pure r.res

def ublksrvCtrlStopDev : Ctrl Int32 := do
  let r ← ctrlCmd info (unPrivilegedPrepData info { cmdOp := ⟨.stopDev, false⟩ })
  pure r.res

def ublksrvCtrlDelDev : Ctrl Int32 := do
  let r ← ctrlCmd info (unPrivilegedPrepData info { cmdOp := ⟨.delDev, false⟩ })
  pure r.res

def ublksrvCtrlGetInfoNoTrans (op : CmdOp) : Ctrl (Int32 × CtrlDevInfo) :=
  if ublkIsUnprivileged info && op.nr == .getDevInfo then pure (einval, info)
  else do
    let data : CtrlCmdData :=
      { cmdOp := op, hasBuf := true, noTrans := true, addr := .devInfo, len := sizeofDevInfo }
    let r ← ctrlCmd info
      (if op.nr = .getDevInfo2 then
        { data with
          hasData := true
          len := ublkcPathMax + sizeofDevInfo
          devPathLen := ublkcPathMax
          addr := .path }
      else data)
    pure (r.res, if 0 ≤ r.res then r.info else info)

def getInfoOp (nr : CmdNr) : Ctrl (Int32 × CtrlDevInfo) := do
  let (ret, info) ← ublksrvCtrlGetInfoNoTrans info (legacyOpToIoctl ⟨nr, false⟩)
  if ret < 0 then ublksrvCtrlGetInfoNoTrans info ⟨nr, false⟩ else pure (ret, info)

def ublksrvCtrlGetInfo : Ctrl (Int32 × CtrlDevInfo) := do
  let (ret, info) ← getInfoOp info .getDevInfo2
  if ret < 0 then
    if ublkIsUnprivileged info then pure (ret, info) else getInfoOp info .getDevInfo
  else pure (ret, info)

end GoUblksrv.Control
