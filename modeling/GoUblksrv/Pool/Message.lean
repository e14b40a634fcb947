import GoUblksrv.Header

namespace GoUblksrv.Pool

inductive Host
  | little
  | big
  deriving DecidableEq, Repr

def bswap16 (x : UInt16) : UInt16 := (x <<< 8) ||| (x >>> 8)

def bswap32 (x : UInt32) : UInt32 :=
  (x <<< 24) ||| ((x <<< 8) &&& (0xff0000 : UInt32)) ||| ((x >>> 8) &&& (0xff00 : UInt32)) ||| (x >>> 24)

def bswap64 (x : UInt64) : UInt64 :=
  ((bswap32 x.toUInt32).toUInt64 <<< 32) ||| (bswap32 (x >>> 32).toUInt32).toUInt64

section

variable (host : Host)

def htole16 (x : UInt16) : UInt16 := if host = .little then x else bswap16 x

def htole32 (x : UInt32) : UInt32 := if host = .little then x else bswap32 x

def cpuToLe64 (x : UInt64) : UInt64 := if host = .little then x else bswap64 x

end

abbrev longhornMessageMagic : UInt16 := 0x1b01

structure Message where
  magic : UInt16
  seq : UInt32
  type : UInt32
  offset : UInt64
  size : UInt32
  dataLength : UInt32
  deriving DecidableEq, Repr

def longhornBuildReq (host : Host) (iod : IoDesc) (seq : UInt32) (type : Int32) : Message where
  magic := htole16 host longhornMessageMagic
  seq := htole32 host seq
  type := htole32 host type.toUInt32
  offset := cpuToLe64 host (iod.startSector <<< 9)
  size := htole32 host (iod.nrSectors <<< 9)
  dataLength :=
    if type = longhornCmdTypeWrite then htole32 host (iod.nrSectors <<< 9) else htole32 host 0

def iovLen (iod : IoDesc) : ℕ := (iod.nrSectors <<< 9).toNat

section

variable {n : UInt32} {m : UInt64}

theorem shl9_toNat (h : n.toNat < 2 ^ 23) : (n <<< 9).toNat = n.toNat * 512 := by
  rw [UInt32.toNat_shiftLeft]
  change n.toNat <<< 9 % 2 ^ 32 = _
  rw [Nat.shiftLeft_eq]
  omega

theorem shl9_toNat64 (h : m.toNat < 2 ^ 54) : (m <<< 9).toNat = m.toNat * 512 := by
  rw [UInt64.toNat_shiftLeft]
  change m.toNat <<< 9 % 2 ^ 64 = _
  rw [Nat.shiftLeft_eq]
  omega

theorem toInt64_toInt (h : m.toNat < 2 ^ 63) : m.toInt64.toInt = m.toNat := by
  change m.toBitVec.toInt = _
  rw [BitVec.toInt_eq_toNat_of_lt (by rw [UInt64.toNat_toBitVec]; omega), UInt64.toNat_toBitVec]

theorem toInt32_toInt (h : n.toNat < 2 ^ 31) : n.toInt32.toInt = n.toNat := by
  change n.toBitVec.toInt = _
  rw [BitVec.toInt_eq_toNat_of_lt (by rw [UInt32.toNat_toBitVec]; omega), UInt32.toNat_toBitVec]

end

end GoUblksrv.Pool
