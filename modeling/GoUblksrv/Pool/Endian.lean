import GoUblksrv.Pool.Actors

/-!
The request message on hosts of either byte order. `__longhorn_build_req` converts each
field to little-endian; `onRequestAsync` reads the fields as they are, and takes the type
and the data length from elsewhere.
-/

namespace GoUblksrv.Pool

structure Decoded where
  offset : Int64
  size : UInt32
  seq : UInt32
  type : UInt32
  deriving DecidableEq, Repr

def decode (req : Message) (opType : Int32) : Decoded where
  offset := req.offset.toInt64
  size := req.size
  seq := req.seq
  type := opType.toUInt32

variable (host : Host) (iod : IoDesc) (tag : UInt32)

def transmit : Decoded :=
  decode (longhornBuildReq host iod tag (reqToLonghornCmdType iod)) (reqToLonghornCmdType iod)

theorem load_transmit (r : Request) (q i rid : ℕ) :
    transmit .little iod (.ofNat i) =
      ⟨(load r q i iod rid).offset, (load r q i iod rid).size, (load r q i iod rid).seq,
        (load r q i iod rid).type⟩ := rfl

def requestType (op : UInt32) : Option UInt32 :=
  if op = ublkIoOpRead then some typeRead
  else if op = ublkIoOpWrite then some typeWrite
  else if op = ublkIoOpDiscard then some typeUnmap
  else none

structure Agree : Prop where
  offset : (transmit host iod tag).offset.toInt = iod.startSector.toNat * 512
  size : (transmit host iod tag).size.toNat = iod.nrSectors.toNat * 512
  seq : (transmit host iod tag).seq = tag
  type : requestType (ublksrvGetOp iod) = some (transmit host iod tag).type
  iovLen : (transmit host iod tag).size.toNat = iovLen iod

/-- The three converted fields are their own byte-wise reversals. -/
structure Palindromic : Prop where
  offset : bswap64 (iod.startSector <<< 9) = iod.startSector <<< 9
  size : bswap32 (iod.nrSectors <<< 9) = iod.nrSectors <<< 9
  seq : bswap32 tag = tag

variable {host iod tag}

theorem transmit_type (hop : ublksrvGetOp iod = ublkIoOpRead ∨ ublksrvGetOp iod = ublkIoOpWrite ∨
    ublksrvGetOp iod = ublkIoOpDiscard) :
    requestType (ublksrvGetOp iod) = some (transmit host iod tag).type := by
  unfold transmit decode reqToLonghornCmdType
  rcases hop with hop | hop | hop <;> rw [hop] <;> rfl

theorem offset_iff (hs : iod.startSector.toNat < 2 ^ 54) :
    (transmit host iod tag).offset.toInt = iod.startSector.toNat * 512 ↔
      cpuToLe64 host (iod.startSector <<< 9) = iod.startSector <<< 9 := by
  have hshl := shl9_toNat64 hs
  have hint : (iod.startSector <<< 9).toInt64.toInt = iod.startSector.toNat * 512 := by
    rw [toInt64_toInt (by omega), hshl]
    rfl
  change (cpuToLe64 host (iod.startSector <<< 9)).toInt64.toInt = _ ↔ _
  rw [← hint, Int64.toInt_inj]
  constructor
  · intro h
    have hbits := congrArg Int64.toBitVec h
    simp only [UInt64.toBitVec_toInt64] at hbits
    exact UInt64.toBitVec_inj.mp hbits
  · intro h
    rw [h]

theorem size_iff (hn : iod.nrSectors.toNat < 2 ^ 23) :
    (transmit host iod tag).size.toNat = iod.nrSectors.toNat * 512 ↔
      htole32 host (iod.nrSectors <<< 9) = iod.nrSectors <<< 9 := by
  change (htole32 host (iod.nrSectors <<< 9)).toNat = _ ↔ _
  rw [← shl9_toNat hn, UInt32.toNat_inj]

theorem message_agrees (host : Host) (iod : IoDesc) (tag : UInt32)
    (hop : ublksrvGetOp iod = ublkIoOpRead ∨ ublksrvGetOp iod = ublkIoOpWrite ∨
      ublksrvGetOp iod = ublkIoOpDiscard)
    (hs : iod.startSector.toNat < 2 ^ 54) (hn : iod.nrSectors.toNat < 2 ^ 23) :
    Agree host iod tag ↔ host = .little ∨ Palindromic iod tag := by
  constructor
  · intro h
    cases host with
    | little => exact .inl rfl
    | big =>
      right
      constructor
      · exact (offset_iff hs).mp h.offset
      · exact (size_iff hn).mp h.size
      · exact h.seq
  · intro h
    have hoffset : cpuToLe64 host (iod.startSector <<< 9) = iod.startSector <<< 9 := by
      rcases h with rfl | h
      · rfl
      · cases host
        · rfl
        · exact h.offset
    have hsize : htole32 host (iod.nrSectors <<< 9) = iod.nrSectors <<< 9 := by
      rcases h with rfl | h
      · rfl
      · cases host
        · rfl
        · exact h.size
    have hseq : htole32 host tag = tag := by
      rcases h with rfl | h
      · rfl
      · cases host
        · rfl
        · exact h.seq
    constructor
    · exact (offset_iff hs).mpr hoffset
    · exact (size_iff hn).mpr hsize
    · exact hseq
    · exact transmit_type hop
    · change (htole32 host (iod.nrSectors <<< 9)).toNat = (iod.nrSectors <<< 9).toNat
      rw [hsize]

def writeIod : IoDesc := ⟨1, 8, 8, 0⟩

theorem message_agrees_little : Agree .little writeIod 3 :=
  (message_agrees .little writeIod 3 (.inr (.inl (by decide))) (by decide) (by decide)).mpr (.inl rfl)

theorem not_message_agrees_big : ¬ ∀ (host : Host) (iod : IoDesc) (tag : UInt32),
    (ublksrvGetOp iod = ublkIoOpRead ∨ ublksrvGetOp iod = ublkIoOpWrite ∨
      ublksrvGetOp iod = ublkIoOpDiscard) →
    iod.startSector.toNat < 2 ^ 54 → iod.nrSectors.toNat < 2 ^ 23 → Agree host iod tag := by
  intro h
  have hagree := h .big writeIod 3 (.inr (.inl (by decide))) (by decide) (by decide)
  exact absurd hagree.seq (by decide)

end GoUblksrv.Pool
