import GoUblksrv.Pool.Ranges

/-!
What a handler has behind it. A `Disk` is the sequence of bytes that the driver reads and writes;
an `IOHandler` is atomic, each call takes effect at one moment between its start and its return,
and it stores a disk if no call within the first `size` bytes fails and each does what the disk's
operation says. A handler that serves its calls under a mutex can be of this kind; `os.File` is
not, its reads and writes may overlap and may fail.
-/

namespace GoUblksrv.Store

open Pool (Reply)

abbrev Disk : Type := ℕ → UInt8

def Disk.write (v : Disk) (off len : ℕ) (b : ℕ → UInt8) : Disk :=
  fun i => if off ≤ i ∧ i < off + len then b (i - off) else v i

def bytes (b : ℕ → UInt8) (n : ℕ) : List UInt8 := (List.range n).map b

inductive Op
  | read (off len : ℕ)
  | write (off : ℕ) (data : List UInt8)
  | discard (off len : ℕ)
  deriving DecidableEq, Repr

structure Result where
  res : ℤ
  data : List UInt8
  deriving DecidableEq, Repr

def Disk.apply (punch : Disk → ℕ → ℕ → Disk) (v : Disk) : Op → Disk × Result
  | .read off len => (v, ⟨len, bytes (fun i => v (off + i)) len⟩)
  | .write off data => (v.write off data.length fun i => data.getD i 0, ⟨data.length, []⟩)
  | .discard off len => (punch v off len, ⟨0, []⟩)

/-- The interface of the handlers: what a call, made on a state `τ`, leaves and returns. -/
structure IOHandler (τ : Type*) where
  readAt : τ → (ℕ → UInt8) → ℕ → Int64 → τ × Reply
  writeAt : τ → (ℕ → UInt8) → ℕ → Int64 → τ × Reply
  unmapAt : τ → UInt32 → Int64 → τ × Reply

variable {τ : Type*}

/-- `p` holds the bytes of the disk from `off` on. -/
structure ReadOk (v : Disk) (len off : ℕ) (reply : Reply) : Prop where
  err : reply.err = false
  n : reply.n = len
  p : ∀ i < len, reply.p i = v (off + i)

structure WriteOk (len : ℕ) (reply : Reply) : Prop where
  err : reply.err = false
  n : reply.n = len

/-- What a call does to the bytes, as long as the handler's own invariant `I` holds. -/
structure IOHandler.Stores (H : IOHandler τ) (size : ℤ) (I : τ → Prop) (contents : τ → Disk)
    (punch : Disk → ℕ → ℕ → Disk) : Prop where
  readAt : ∀ v p len off, I v → 0 ≤ off.toInt → off.toInt + (len : ℕ) ≤ size →
    I (H.readAt v p len off).1 ∧ contents (H.readAt v p len off).1 = contents v ∧
      ReadOk (contents v) len off.toInt.toNat (H.readAt v p len off).2
  writeAt : ∀ v b len off, I v → 0 ≤ off.toInt → off.toInt + (len : ℕ) ≤ size →
    I (H.writeAt v b len off).1 ∧
      contents (H.writeAt v b len off).1 = (contents v).write off.toInt.toNat len b ∧
      WriteOk len (H.writeAt v b len off).2
  unmapAt : ∀ v length off, I v → 0 ≤ off.toInt → off.toInt + (length.toNat : ℕ) ≤ size →
    I (H.unmapAt v length off).1 ∧
      contents (H.unmapAt v length off).1 = punch (contents v) off.toInt.toNat length.toNat ∧
      (H.unmapAt v length off).2.err = false

/-- The call stays within the first `n` bytes. -/
abbrev Inside (n len : ℕ) (off : Int64) : Prop := 0 ≤ off.toInt ∧ off.toInt + len ≤ n

/-- A handler that keeps `n` bytes in memory and zeroes what is discarded. -/
def memoryHandler (n : ℕ) : IOHandler Disk where
  readAt v p len off :=
    (v, if Inside n len off then ⟨len, false, fun i => v (off.toInt.toNat + i)⟩ else ⟨0, true, p⟩)
  writeAt v b len off :=
    if Inside n len off then (v.write off.toInt.toNat len b, ⟨len, false, b⟩) else (v, ⟨0, true, b⟩)
  unmapAt v length off :=
    if Inside n length.toNat off then
      (v.write off.toInt.toNat length.toNat fun _ => 0, ⟨length.toNat, false, fun _ => 0⟩)
    else (v, ⟨0, true, fun _ => 0⟩)

def zeroing (v : Disk) (off len : ℕ) : Disk := v.write off len fun _ => 0

theorem memoryHandler_stores {size : ℤ} {n : ℕ} (hn : size ≤ n) :
    (memoryHandler n).Stores size (fun _ => True) id zeroing where
  readAt v p len off _ h0 hend := by
    have hin : Inside n len off := ⟨h0, by omega⟩
    have hread : (memoryHandler n).readAt v p len off =
        (v, ⟨len, false, fun i => v (off.toInt.toNat + i)⟩) := congrArg (Prod.mk v) (if_pos hin)
    rw [hread]
    exact ⟨trivial, rfl, rfl, rfl, fun i _ => rfl⟩
  writeAt v b len off _ h0 hend := by
    have hwrite : (memoryHandler n).writeAt v b len off = _ := if_pos ⟨h0, by omega⟩
    rw [hwrite]
    exact ⟨trivial, rfl, rfl, rfl⟩
  unmapAt v length off _ h0 hend := by
    have hunmap : (memoryHandler n).unmapAt v length off = _ := if_pos ⟨h0, by omega⟩
    rw [hunmap]
    exact ⟨trivial, rfl, rfl⟩

end GoUblksrv.Store
