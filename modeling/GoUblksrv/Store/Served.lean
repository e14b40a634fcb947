import GoUblksrv.Lib.Atomic
import GoUblksrv.Lib.Progress
import GoUblksrv.Pool.Drain
import GoUblksrv.Pool.Transfer
import GoUblksrv.Store.Disk

/-!
The Go side of a device together with an atomic handler: the step machine of the goroutines, whose
handler calls are now made on the handler's state. `.call j` is the moment at which the call of
goroutine `j` takes effect; the goroutine may run for any time before and after it, from
`.dispatch` to its `.handlerSend`, beside the calls of others. The history is what the driver
sees, the deliveries of its requests and their completions; no step reads it.
-/

namespace GoUblksrv.Store

open Pool (Reply Method Handler Task sectors initParams)
open Atomic (Event)

variable {τ : Type*}

structure State (τ : Type*) where
  pool : Pool.State
  backing : τ
  history : List (Event Op Result)

inductive Act
  | pool (a : Pool.Act)
  | call (j : ℕ)

def Act.delivers : Act → Bool
  | .pool a => a.delivers
  | .call _ => false

def answer (H : IOHandler τ) (s : Pool.State) (v : τ) (h : Handler) : τ × Reply :=
  let r := s.objs h.obj
  match h.method with
  | .read => H.readAt v r.rData r.size.toNat r.offset
  | .write => H.writeAt v (s.bufs r.wData.q r.wData.tag) r.wData.len r.offset
  | .unmap => H.unmapAt v r.size r.offset
  | .ping => (v, ⟨0, false, fun _ => 0⟩)

/-- What a request asks of the disk. -/
def Op.of (iod : IoDesc) (buf : ℕ → UInt8) : Op :=
  let off := iod.startSector.toNat * 512
  let len := iod.nrSectors.toNat * 512
  if ublksrvGetOp iod = ublkIoOpRead then .read off len
  else if ublksrvGetOp iod = ublkIoOpWrite then .write off (bytes buf len)
  else .discard off len

def seen (s : Pool.State) (t : Task) (res : Int32) : Result where
  res := res.toInt
  data := if ublksrvGetOp t.iod = ublkIoOpRead then bytes (s.bufs t.q t.tag) res.toInt.toNat else []

def events (s : Pool.State) : Pool.Act → List (Event Op Result)
  | .deliver _ _ iod buf _ => [.invoke s.tasks.length (Op.of iod buf)]
  | .task k =>
    s.tasks[k]?.elim [] fun t =>
      match t.pc with
      | .failComplete => [.respond k (seen s t eio)]
      | .complete res => [.respond k (seen s t res)]
      | _ => []
  | .dispatch | .dispatchSend | .handle .. | .handlerSend _ => []

def step (H : IOHandler τ) (s : State τ) : Act → Option (State τ)
  | .pool (.handle ..) => none
  | .pool a =>
    (Pool.step s.pool a).map fun p => { s with pool := p, history := s.history ++ events s.pool a }
  | .call j =>
    s.pool.handlers[j]?.bind fun h =>
      let (v, reply) := answer H s.pool s.backing h
      (Pool.step s.pool (.handle j reply)).map fun p => { s with pool := p, backing := v }

def machine (H : IOHandler τ) (v : τ) : Machine (State τ) Act where
  init s := ∃ iods bufs, s = ⟨Pool.start iods bufs, v, []⟩
  step := step H

/-- The driver keeps to the parameters of a device of `size` bytes. -/
def Within (size : Int64) (maxIoBufBytes : UInt32) (s : State τ) : Act → Prop
  | .pool a => Pool.Admitted (initParams maxIoBufBytes (sectors size)) s.pool a = true
  | .call _ => True

instance (size : Int64) (maxIoBufBytes : UInt32) (s : State τ) (a : Act) :
    Decidable (Within size maxIoBufBytes s a) :=
  match a with
  | .pool _ => inferInstanceAs (Decidable (_ = true))
  | .call _ => .isTrue trivial

inductive Step (H : IOHandler τ) (s : State τ) : Act → State τ → Prop
  | pool (a : Pool.Act) (p : Pool.State) : (∀ j reply, a ≠ .handle j reply) → Pool.step s.pool a = some p →
      Step H s (.pool a) { s with pool := p, history := s.history ++ events s.pool a }
  | call (j : ℕ) (h : Handler) (p : Pool.State) : s.pool.handlers[j]? = some h →
      Pool.step s.pool (.handle j (answer H s.pool s.backing h).2) = some p →
      Step H s (.call j) { s with pool := p, backing := (answer H s.pool s.backing h).1 }

variable {H : IOHandler τ} {s s' : State τ} {v₀ : τ} {a : Act}

theorem step_cases (h : step H s a = some s') : Step H s a s' := by
  cases a with
  | pool b =>
    have main : (∀ j reply, b ≠ .handle j reply) →
        (Pool.step s.pool b).map (fun p => { s with pool := p, history := s.history ++ events s.pool b }) =
          some s' → Step H s (.pool b) s' := by
      intro hb hs
      obtain ⟨p, hp, rfl⟩ := Option.map_eq_some_iff.mp hs
      exact .pool b p hb hp
    cases b with
    | handle => cases h
    | deliver | dispatch | dispatchSend | handlerSend | task =>
      apply main _ h
      intro j reply he
      cases he
  | call j =>
    obtain ⟨g, hg, hs⟩ := Option.bind_eq_some_iff.mp h
    obtain ⟨p, hp, rfl⟩ := Option.map_eq_some_iff.mp hs
    exact .call j g p hg hp

section

variable {size : Int64} {I : τ → Prop} {contents : τ → Disk} {punch : Disk → ℕ → ℕ → Disk} {v : τ}
  {p : Pool.State} {g : Handler} {iod : IoDesc}

def effect (punch : Disk → ℕ → ℕ → Disk) (p : Pool.State) (g : Handler) (v : Disk) : Disk :=
  let r := p.objs g.obj
  match g.method with
  | .read | .ping => v
  | .write => v.write r.offset.toInt.toNat r.wData.len (p.bufs r.wData.q r.wData.tag)
  | .unmap => punch v r.offset.toInt.toNat r.size.toNat

structure AnswerOk (I : τ → Prop) (contents : τ → Disk) (punch : Disk → ℕ → ℕ → Disk) (p : Pool.State)
    (g : Handler) (v : τ) (x : τ × Reply) : Prop where
  keeps : I x.1
  bytes : contents x.1 = effect punch p g (contents v)
  err : x.2.err = false
  n : g.method = .read ∨ g.method = .write → x.2.n = Pool.argLen (p.objs g.obj) g.method
  read : g.method = .read →
    ∀ i < (p.objs g.obj).size.toNat, x.2.p i = contents v ((p.objs g.obj).offset.toInt.toNat + i)

theorem answer_ok (hH : H.Stores size.toInt I contents punch) (hI : I v)
    (hcall : Pool.Called size iod (p.objs g.obj) g.method) :
    AnswerOk I contents punch p g v (answer H p v g) := by
  have hrange := hcall.range
  rcases hcall.method with hm | hm | hm
  · rw [hm] at hrange
    obtain ⟨hI', hc, hr⟩ := hH.readAt v (p.objs g.obj).rData _ _ hI hcall.nonneg hrange
    simp only [answer, hm]
    constructor
    · exact hI'
    · simp only [effect, hm]
      exact hc
    · exact hr.err
    · intro _
      rw [hm]
      exact hr.n
    · intro _
      exact hr.p
  · rw [hm] at hrange
    obtain ⟨hI', hc, hw⟩ := hH.writeAt v
      (p.bufs (p.objs g.obj).wData.q (p.objs g.obj).wData.tag) _ _ hI hcall.nonneg hrange
    simp only [answer, hm]
    constructor
    · exact hI'
    · simp only [effect, hm]
      exact hc
    · exact hw.err
    · intro _
      rw [hm]
      exact hw.n
    · intro hne
      rw [hm] at hne
      cases hne
  · rw [hm] at hrange
    obtain ⟨hI', hc, he⟩ := hH.unmapAt v _ _ hI hcall.nonneg hrange
    simp only [answer, hm]
    constructor
    · exact hI'
    · simp only [effect, hm]
      exact hc
    · exact he
    · rw [hm]
      rintro (hne | hne) <;> cases hne
    · intro hne
      rw [hm] at hne
      cases hne

/-- The conditions under which the goroutines alone were looked at. -/
def Sound (p : Pool.Params) (s : Pool.State) (a : Pool.Act) : Prop :=
  Pool.Admitted p s a = true ∧ Pool.NoError a = true ∧ Pool.Faithful s a

variable {maxIoBufBytes : UInt32}

theorem bounded_tasks (hs : 0 ≤ size.toInt) (hb : maxIoBufBytes.toNat ≤ defBufSize)
    (h : Pool.machine.Reach (Sound (initParams maxIoBufBytes (sectors size))) p) :
    ∀ t ∈ p.tasks, Pool.Bounded size t.iod := by
  intro t ht
  exact Pool.bounded_of_admits hs hb (Pool.admits_reach (fun _ _ hc => hc.1) h t ht)

theorem called_handler (hs : 0 ≤ size.toInt) (hb : maxIoBufBytes.toNat ≤ defBufSize)
    (h : Pool.machine.Reach (Sound (initParams maxIoBufBytes (sectors size))) p) (hg : g ∈ p.handlers) :
    ∃ t ∈ p.tasks, t.obj = g.obj ∧ t.pc = .recvComplete ∧
      Pool.Called size t.iod (p.objs g.obj) g.method :=
  (Pool.custody_reach h).called (Pool.located_reach h) hg (bounded_tasks hs hb h)

/-- Whatever is asked of it in range, the handler fails no call, and the goroutines run as they do
under such a handler. -/
theorem pool_reach (hH : H.Stores size.toInt I contents punch) (hI : I v₀) (hs : 0 ≤ size.toInt)
    (hb : maxIoBufBytes.toNat ≤ defBufSize) (h : (machine H v₀).Reach (Within size maxIoBufBytes) s) :
    I s.backing ∧ Pool.machine.Reach (Sound (initParams maxIoBufBytes (sectors size))) s.pool := by
  apply h.invariant (I := fun s => I s.backing ∧
    Pool.machine.Reach (Sound (initParams maxIoBufBytes (sectors size))) s.pool)
  · rintro t ⟨iods, bufs, rfl⟩
    exact ⟨hI, .init ⟨iods, bufs, rfl⟩⟩
  · rintro t b t' - ⟨hIt, hr⟩ hc hst
    cases step_cases hst with
    | pool b p hb' hp =>
      refine ⟨hIt, .step hr ⟨hc, ?_, ?_⟩ hp⟩
      · cases b with
        | handle j reply => exact absurd rfl (hb' j reply)
        | _ => rfl
      · cases b with
        | handle j reply => exact absurd rfl (hb' j reply)
        | _ => trivial
    | call j g p hg hp =>
      obtain ⟨u, -, -, -, hcall⟩ := called_handler hs hb hr (List.mem_of_getElem? hg)
      have hok := answer_ok hH hIt hcall
      refine ⟨hok.keeps, .step (a := .handle j (answer H t.pool t.backing g).2) hr ⟨rfl, ?_, ?_⟩ hp⟩
      · simp [Pool.NoError, hok.err]
      · intro g' hg'
        obtain rfl : g = g' := Option.some.inj (hg.symm.trans hg')
        exact ⟨hok.err, hok.n⟩

end

end GoUblksrv.Store
