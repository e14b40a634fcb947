import Mathlib.Data.UInt
import Mathlib.Data.BitVec
import Mathlib.Tactic.SplitIfs

/-!
The constants and the driver's records of `ublkhelper.h`, and the small functions
of `ublkhelper.c` that pack and unpack them.
-/

namespace GoUblksrv

abbrev eio : Int32 := -5
abbrev enodev : Int32 := -19

abbrev ublkIoResOk : Int32 := 0
abbrev ublkIoResNeedGetData : Int32 := 1
abbrev ublkIoResAbort : Int32 := enodev

abbrev ublkIoOpRead : UInt32 := 0
abbrev ublkIoOpWrite : UInt32 := 1
abbrev ublkIoOpDiscard : UInt32 := 3

abbrev longhornCmdTypeRead : Int32 := 0
abbrev longhornCmdTypeWrite : Int32 := 1
abbrev longhornCmdTypeUnmap : Int32 := 7

abbrev ublkMaxQueueDepth : ℕ := 4096
abbrev defBufSize : ℕ := 512 <<< 10

structure IoDesc where
  opFlags : UInt32
  nrSectors : UInt32
  startSector : UInt64
  addr : UInt64
  deriving DecidableEq, Repr

def ublksrvGetOp (iod : IoDesc) : UInt32 := iod.opFlags &&& 0xff

def reqToLonghornCmdType (iod : IoDesc) : Int32 :=
  if ublksrvGetOp iod = ublkIoOpRead then longhornCmdTypeRead
  else if ublksrvGetOp iod = ublkIoOpWrite then longhornCmdTypeWrite
  else if ublksrvGetOp iod = ublkIoOpDiscard then longhornCmdTypeUnmap
  else -1

theorem reqToLonghornCmdType_cases (iod : IoDesc) :
    (ublksrvGetOp iod = ublkIoOpRead ∧ reqToLonghornCmdType iod = longhornCmdTypeRead) ∨
    (ublksrvGetOp iod = ublkIoOpWrite ∧ reqToLonghornCmdType iod = longhornCmdTypeWrite) ∨
    (ublksrvGetOp iod = ublkIoOpDiscard ∧ reqToLonghornCmdType iod = longhornCmdTypeUnmap) ∨
    reqToLonghornCmdType iod = -1 := by
  unfold reqToLonghornCmdType
  split_ifs with hr hw hd
  · exact .inl ⟨hr, rfl⟩
  · exact .inr (.inl ⟨hw, rfl⟩)
  · exact .inr (.inr (.inl ⟨hd, rfl⟩))
  · exact .inr (.inr (.inr rfl))

def getNrSectors (iod : IoDesc) : UInt32 := iod.nrSectors

inductive IoCmdOp
  | fetchReq
  | commitAndFetchReq
  | needGetData
  deriving DecidableEq, Repr

def IoCmdOp.code : IoCmdOp → UInt32
  | .fetchReq => 0x20
  | .commitAndFetchReq => 0x21
  | .needGetData => 0x22

def iocNr (op : UInt32) : UInt32 := op &&& 0xff

theorem iocNr_lt (op : UInt32) : (iocNr op).toNat < 2 ^ 8 := by
  have hle : op.toNat &&& (0xff : UInt32).toNat ≤ 0xff := Nat.and_le_right
  rw [iocNr, UInt32.toNat_and]
  omega

/-- `_IOWR('u', nr, struct ublksrv_io_cmd)`: direction 3, size 16, type `'u'`. -/
def iowrIoCmd (nr : UInt32) : UInt32 :=
  ((3 : UInt32) <<< 30) ||| ((16 : UInt32) <<< 16) ||| ((0x75 : UInt32) <<< 8) ||| nr

def buildUserDataAsserts (tag op tgtData : UInt32) : Bool :=
  tag >>> 16 == 0 && op >>> 8 == 0 && tgtData >>> 16 == 0

/-- The three fields are shifted as 32-bit values; only the flag is widened before its shift. -/
def buildUserData (tag op tgtData isTargetIo : UInt32) : UInt64 :=
  (tag ||| (op <<< 16) ||| (tgtData <<< 24)).toUInt64 ||| (isTargetIo.toUInt64 <<< 63)

def userDataToTag (userData : UInt64) : UInt32 := (userData &&& 0xffff).toUInt32

def userDataToOp (userData : UInt64) : UInt32 := ((userData >>> 16) &&& 0xff).toUInt32

def isTargetIo (userData : UInt64) : Bool := (userData &&& ((1 : UInt64) <<< 63)) != 0

end GoUblksrv
