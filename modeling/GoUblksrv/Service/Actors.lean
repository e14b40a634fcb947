import GoUblksrv.Queue.Locks
import GoUblksrv.Store.Served

/-!
The whole server as one step machine: the queue threads with their rings and locks, the
goroutines, and the handler. A completion goroutine is in the model of its queue and in that of
the goroutines, and moves in both at once. Only the exchange with the handler, which is one
step there, and `ublksrv_complete_io`, which is one step here, are gone through by one model while
the other stands still. The device is registered all the time.

`links` says which goroutine of which queue serves a request. `last`, the request that the
driver has on a tag, and `acks` record the history, and no step reads them. In `acks` a request
is completed when the kernel takes its commit from the SQ.
-/

namespace GoUblksrv.Service

open Pool (Params)
open Store (IOHandler Op Result)
open Atomic (Event)

structure State (τ : Type*) where
  queues : List Queue.State
  store : Store.State τ
  links : List (ℕ × ℕ)
  last : ℕ → ℕ → ℕ
  acks : List (Event Op Result)

inductive Act
  | queue (q : ℕ) (a : Queue.Act)
  | request (q : ℕ) (buf : ℕ → UInt8) (i : ℕ)
  | go (a : Pool.Act)
  | call (j : ℕ)
  | task (k : ℕ)

/-- The steps of a queue thread and of the kernel that involve no goroutine. -/
def solo : Queue.Act → Bool
  | .thread | .spurious | .submit _ | .waitCqe _ | .reap .. | .reapEnd => true
  | .onRequest _ | .task .. => false

/-- The steps of the dispatcher and of the handler goroutines. -/
def aside : Pool.Act → Bool
  | .dispatch | .dispatchSend | .handlerSend _ => true
  | .deliver .. | .handle .. | .task _ => false

def waits : Pool.TaskPc → Bool
  | .sendRequest | .recvComplete => true
  | _ => false

variable {τ : Type*}

/-- What the driver finds in the command `e`: of a commit, the result, and the data of a read. -/
def State.taken (s : State τ) (q : ℕ) (e : Queue.Sqe) : Option (ℕ × Result) :=
  e.cmd.result.bind fun res =>
    let k := s.last q e.cmd.tag
    s.store.pool.tasks[k]?.map fun t => (k, Store.seen s.store.pool t res)

def State.committed (s : State τ) (q : ℕ) (Q : Queue.State) : Queue.Act → List (ℕ × Result)
  | .submit n => (Q.mem.ring.sq.take n).filterMap (s.taken q)
  | _ => []

/-- `onRequestAsync`, and what the driver has written for the tag by then. -/
def delivered (p : Pool.State) (q tag : ℕ) (iod : IoDesc) (buf : ℕ → UInt8) (o i : ℕ) : Pool.State :=
  { Pool.onRequestAsync p q tag iod o i with
    iods := Function.update p.iods q (Function.update (p.iods q) tag iod)
    bufs := Function.update p.bufs q (Function.update (p.bufs q) tag buf)
    inFlight := Function.update p.inFlight q (Function.update (p.inFlight q) tag (some p.tasks.length)) }

/-- The queue thread passes on a request; it waits while `msgChan` is empty. -/
def State.passed (s : State τ) (q tag : ℕ) (Q Q' : Queue.State) (buf : ℕ → UInt8) (o i : ℕ) : State τ :=
  let k := s.store.pool.tasks.length
  let iod := Q.mem.ioCmdBuf tag
  { queues := s.queues.set q Q'
    store :=
      { s.store with
        pool := delivered s.store.pool q tag iod buf o i
        history := s.store.history ++ [.invoke k (Op.of iod buf)] }
    links := s.links ++ [(q, Q.tasks.length)]
    last := Function.update s.last q (Function.update (s.last q) tag k)
    acks := s.acks ++ [.invoke k (Op.of iod buf)] }

def requestStep (s : State τ) (q : ℕ) (buf : ℕ → UInt8) (i : ℕ) : Option (State τ) :=
  s.queues[q]?.bind fun Q =>
    match Q.thread.pc with
    | .onRequest tag _ =>
      s.store.pool.msgChan[i]?.bind fun o =>
        (Queue.step Q (.onRequest true)).map fun Q' => s.passed q tag Q Q' buf o i
    | _ => none

variable (H : IOHandler τ)

def taskStep (s : State τ) (k : ℕ) : Option (State τ) :=
  s.store.pool.tasks[k]?.bind fun t =>
    s.links[k]?.bind fun x =>
      s.queues[x.1]?.bind fun Q =>
        Q.tasks[x.2]?.bind fun u =>
          if waits t.pc then
            (Store.step H s.store (.pool (.task k))).map fun st => { s with store := st }
          else if u.pc.call.isSome then
            (Queue.step Q (.task x.2 false)).map fun Q' => { s with queues := s.queues.set x.1 Q' }
          else
            let failed := t.pc == .check && decide ((s.store.pool.objs t.obj).result = -1)
            (Store.step H s.store (.pool (.task k))).bind fun st =>
              (Queue.step Q (.task x.2 failed)).map fun Q' =>
                { s with store := st, queues := s.queues.set x.1 Q' }

def step (s : State τ) : Act → Option (State τ)
  | .queue q a =>
    if solo a then
      s.queues[q]?.bind fun Q =>
        (Queue.step Q a).map fun Q' =>
          { s with
            queues := s.queues.set q Q'
            acks := s.acks ++ (s.committed q Q a).map fun x => .respond x.1 x.2 }
    else none
  | .request q buf i => requestStep s q buf i
  | .go a =>
    if aside a then (Store.step H s.store (.pool a)).map fun st => { s with store := st } else none
  | .call j => (Store.step H s.store (.call j)).map fun st => { s with store := st }
  | .task k => taskStep H s k

def machine (info : Queue.DevInfo) (v : τ) : Machine (State τ) Act where
  init s := ∃ queues store, s = ⟨queues, store, [], fun _ _ => 0, []⟩ ∧ (Store.machine H v).init store ∧
    ∀ q Q, queues[q]? = some Q → ∃ buf mem m,
      Queue.ublksrvQueueInit (Queue.ublksrvDevInit info) q buf mem = some m ∧ Q = Queue.start m
  step := step H

/-- The driver keeps to the parameters of the device. -/
def admitted (p : Params) : Act → Bool
  | .queue _ (.reap _ res iod) => res != ublkIoResOk || p.admits iod
  | .queue .. | .request .. | .go _ | .call _ | .task _ => true

def Within (size : Int64) (maxIoBufBytes : UInt32) (_ : State τ) (a : Act) : Prop :=
  admitted (Pool.initParams maxIoBufBytes (Pool.sectors size)) a = true

def Act.drifts : Act → Bool
  | .queue _ a => a.drifts
  | .request .. | .go _ | .call _ | .task _ => false

/-- The driver keeps to the parameters of the device, and completes nothing with NEED_GET_DATA. -/
def Orderly (size : Int64) (maxIoBufBytes : UInt32) (s : State τ) (a : Act) : Prop :=
  Within size maxIoBufBytes s a ∧ a.drifts = false

inductive Step (s : State τ) : Act → State τ → Prop
  | queue (q : ℕ) (a : Queue.Act) (Q Q' : Queue.State) : solo a = true → s.queues[q]? = some Q →
      Queue.step Q a = some Q' →
      Step s (.queue q a)
        { s with
          queues := s.queues.set q Q'
          acks := s.acks ++ (s.committed q Q a).map fun x => .respond x.1 x.2 }
  | request (q : ℕ) (buf : ℕ → UInt8) (i : ℕ) (Q Q' : Queue.State) (tag rid o : ℕ) :
      s.queues[q]? = some Q → Q.thread.pc = .onRequest tag rid → s.store.pool.msgChan[i]? = some o →
      Queue.step Q (.onRequest true) = some Q' →
      Step s (.request q buf i) (s.passed q tag Q Q' buf o i)
  | go (a : Pool.Act) (st : Store.State τ) : aside a = true → Store.step H s.store (.pool a) = some st →
      Step s (.go a) { s with store := st }
  | call (j : ℕ) (st : Store.State τ) : Store.step H s.store (.call j) = some st →
      Step s (.call j) { s with store := st }
  | exchange (k : ℕ) (t : Pool.Task) (st : Store.State τ) : s.store.pool.tasks[k]? = some t →
      waits t.pc = true → Store.step H s.store (.pool (.task k)) = some st →
      Step s (.task k) { s with store := st }
  | inside (k : ℕ) (t : Pool.Task) (q i : ℕ) (Q Q' : Queue.State) (u : Queue.Task) :
      s.store.pool.tasks[k]? = some t → s.links[k]? = some (q, i) → s.queues[q]? = some Q →
      Q.tasks[i]? = some u → u.pc.call.isSome = true → Queue.step Q (.task i false) = some Q' →
      Step s (.task k) { s with queues := s.queues.set q Q' }
  | both (k : ℕ) (t : Pool.Task) (q i : ℕ) (Q Q' : Queue.State) (u : Queue.Task) (failed : Bool)
      (st : Store.State τ) :
      s.store.pool.tasks[k]? = some t → s.links[k]? = some (q, i) → s.queues[q]? = some Q →
      Q.tasks[i]? = some u → waits t.pc = false → u.pc.call = none →
      failed = (t.pc == .check && decide ((s.store.pool.objs t.obj).result = -1)) →
      Store.step H s.store (.pool (.task k)) = some st → Queue.step Q (.task i failed) = some Q' →
      Step s (.task k) { s with store := st, queues := s.queues.set q Q' }

variable {H} {s s' : State τ} {a : Act}

theorem within_reach {info : Queue.DevInfo} {v₀ : τ} {size : Int64} {maxIoBufBytes : UInt32}
    (h : (machine H info v₀).Reach (Orderly size maxIoBufBytes) s) :
    (machine H info v₀).Reach (Within size maxIoBufBytes) s :=
  h.mono fun _ _ hc => hc.1

theorem requestStep_cases {q i : ℕ} {buf : ℕ → UInt8} (h : requestStep s q buf i = some s') :
    Step H s (.request q buf i) s' := by
  obtain ⟨Q, hQ, h⟩ := Option.bind_eq_some_iff.mp h
  split at h
  · rename_i tag rid hp
    obtain ⟨o, ho, h⟩ := Option.bind_eq_some_iff.mp h
    obtain ⟨Q', hst, rfl⟩ := Option.map_eq_some_iff.mp h
    exact .request q buf i Q Q' tag rid o hQ hp ho hst
  · cases h

theorem taskStep_cases {k : ℕ} (h : taskStep H s k = some s') : Step H s (.task k) s' := by
  obtain ⟨t, ht, h⟩ := Option.bind_eq_some_iff.mp h
  obtain ⟨⟨q, i⟩, hx, h⟩ := Option.bind_eq_some_iff.mp h
  obtain ⟨Q, hQ, h⟩ := Option.bind_eq_some_iff.mp h
  obtain ⟨u, hu, h⟩ := Option.bind_eq_some_iff.mp h
  split_ifs at h with hw hc
  · obtain ⟨st, hst, rfl⟩ := Option.map_eq_some_iff.mp h
    exact .exchange k t st ht hw hst
  · obtain ⟨Q', hst, rfl⟩ := Option.map_eq_some_iff.mp h
    exact .inside k t q i Q Q' u ht hx hQ hu hc hst
  · obtain ⟨st, hst, h⟩ := Option.bind_eq_some_iff.mp h
    obtain ⟨Q', hst', rfl⟩ := Option.map_eq_some_iff.mp h
    have hnone : u.pc.call = none := Option.not_isSome_iff_eq_none.mp hc
    exact .both k t q i Q Q' u _ st ht hx hQ hu (Bool.eq_false_of_not_eq_true hw) hnone rfl hst hst'

theorem step_cases (h : step H s a = some s') : Step H s a s' := by
  cases a with
  | queue q a =>
    simp only [step] at h
    split_ifs at h with ha
    obtain ⟨Q, hQ, h⟩ := Option.bind_eq_some_iff.mp h
    obtain ⟨Q', hst, rfl⟩ := Option.map_eq_some_iff.mp h
    exact .queue q a Q Q' ha hQ hst
  | request q buf i => exact requestStep_cases h
  | go a =>
    simp only [step] at h
    split_ifs at h with ha
    obtain ⟨st, hst, rfl⟩ := Option.map_eq_some_iff.mp h
    exact .go a st ha hst
  | call j =>
    obtain ⟨st, hst, rfl⟩ := Option.map_eq_some_iff.mp h
    exact .call j st hst
  | task k => exact taskStep_cases h

end GoUblksrv.Service
