import GoUblksrv.Service.Pairing
import GoUblksrv.Store.Completion

namespace GoUblksrv.Pool

variable {s s' : State} {a : Act} {t t' : Task} {k : ℕ}

theorem Step.tasks_length (h : Step s a s') (hd : a.delivers = false) : s'.tasks.length = s.tasks.length := by
  cases h with
  | deliver => cases hd
  | handle => exact List.length_modify ..
  | spawn | unknown | dispatchSend | handlerSend => rfl
  | sendRequest | recvComplete | check | failComplete | copyRead | copySkip | finalRes | complete | putMsg =>
    exact List.length_set

theorem Step.set (h : Step s (.task k) s') : ∃ t', s'.tasks = s.tasks.set k t' := by
  cases h <;> exact ⟨_, rfl⟩

theorem Step.handled_pc {j : ℕ} {reply : Reply} (h : Step s (.handle j reply) s')
    (ht : s.tasks[k]? = some t) (ht' : s'.tasks[k]? = some t') : t'.pc = t.pc := by
  cases h with
  | handle _ g _ r hg hs hr =>
    obtain ⟨u, hu, rfl⟩ := record_get ht'
    obtain rfl : t = u := Option.some.inj (ht.symm.trans hu)
    split_ifs <;> rfl

end GoUblksrv.Pool

namespace GoUblksrv.Service

open Pool (sectors initParams)
open Store (IOHandler Disk)
open Queue (twoTags ublksrvQueueInit ublksrvDevInit zeroed)

variable {τ : Type*} {H : IOHandler τ} {info : Queue.DevInfo} {s s' : State τ} {a : Act} {v₀ : τ}
  {size : Int64} {I : τ → Prop} {contents : τ → Disk} {punch : Disk → ℕ → ℕ → Disk}
  {maxIoBufBytes : UInt32} {t t' : Pool.Task} {Q Q' : Queue.State} {u u' : Queue.Task} {k q i : ℕ}
  {st : Store.State τ}

theorem queue_task {failed : Bool} (hu : Q.tasks[i]? = some u) (h : Queue.step Q (.task i failed) = some Q') :
    ∃ q' u' ev, Queue.taskStep Q.mem u failed = some (q', u', ev) ∧
      Q' = { Q with mem := q', tasks := Q.tasks.set i u', log := Q.log ++ ev } := by
  simp only [Queue.step, hu, Option.bind_some] at h
  obtain ⟨⟨q', u', ev⟩, hst, rfl⟩ := Option.map_eq_some_iff.mp h
  exact ⟨q', u', ev, hst, rfl⟩

theorem reach_store {st' : Store.State τ} {b : Store.Act}
    (hr : (Store.machine H v₀).Reach (Store.Within size maxIoBufBytes) st)
    (h : Store.step H st b = some st') (hw : Store.Within size maxIoBufBytes st b) :
    (Store.machine H v₀).Reach (Store.Within size maxIoBufBytes) st' :=
  hr.step hw h

theorem reach_queue {b : Queue.Act} (hr : (Queue.machine info).Reach Queue.NoFailure Q)
    (h : Queue.step Q b = some Q') (hc : Queue.NoFailure Q b) : (Queue.machine info).Reach Queue.NoFailure Q' :=
  hr.step hc h

theorem issued_of_bounded {iod : IoDesc} (h : Pool.Bounded size iod) : Pool.issued iod = true := by
  rw [Pool.issued]
  rcases h.op with ⟨-, hn⟩ | hd
  · have hmax : defBufSize >>> 9 = 1024 := rfl
    simp [hmax, hn]
  · rw [hd]
    rfl

theorem not_failing {p p' : Pool.State} (h : Pool.Step p (.task k) p') (ht : p.tasks[k]? = some t)
    (ht' : p'.tasks[k]? = some t') (hf : t'.failed = false) :
    (t.pc == .check && decide ((p.objs t.obj).result = -1)) = false := by
  cases h with
  | check _ v f hv hpc hf' =>
    obtain rfl : t = v := Option.some.inj (ht.symm.trans hv)
    have hself : some t' = some _ :=
      ht'.symm.trans (List.getElem?_set_self (List.getElem?_eq_some_iff.mp ht).1)
    rw [Option.some.inj hself] at hf
    change f = false at hf
    rw [hpc, ← hf', hf]
    rfl
  | sendRequest _ v hv hpc | recvComplete _ v hv hpc | failComplete _ v hv hpc | copyRead _ v hv hpc
  | copySkip _ v hv hpc | finalRes _ v res hv hpc | complete _ v res hv hpc | putMsg _ v hv hpc =>
    obtain rfl : t = v := Option.some.inj (ht.symm.trans hv)
    rw [hpc]
    rfl

theorem copyOut_of_failCmd {pc : Pool.TaskPc} {c : Queue.IoCmdPc} (h : Together pc (.failCmd c)) :
    pc = .copyOut := by
  cases pc with
  | copyOut => rfl
  | putMsg => rcases h with ⟨x, hx⟩ | hx <;> cases hx
  | _ => cases h

theorem putMsg_of_cmd {pc : Pool.TaskPc} {c : Queue.IoCmdPc} (h : Together pc (.cmd c)) : pc = .putMsg := by
  cases pc with
  | putMsg => rfl
  | copyOut => rcases h with ⟨x, hx⟩ | hx <;> cases hx
  | _ => cases h

/-- Inside `ublksrv_complete_io` the goroutine model stands still. -/
theorem together_inside {pc : Pool.TaskPc} {m m' : Queue.Memory} {ev : List Queue.Event}
    (h : Queue.taskStep m u false = some (m', u', ev)) (hc : u.pc.call.isSome = true)
    (hp : Together pc u.pc) : Together pc u'.pc := by
  cases Queue.taskStep_cases h with
  | verdict hu | failMark hu | copyOut hu | finalUnmap hu | finalRes hu | mark res hu | putMsg hu =>
    rw [hu] at hc
    cases hc
  | failCall m' c c' hu hcall =>
    obtain rfl := copyOut_of_failCmd (hu ▸ hp)
    exact .inl ⟨c', rfl⟩
  | failRet r hu =>
    obtain rfl := copyOut_of_failCmd (hu ▸ hp)
    exact .inr rfl
  | call m' c c' hu hcall =>
    obtain rfl := putMsg_of_cmd (hu ▸ hp)
    exact .inl ⟨c', rfl⟩
  | ret r hu =>
    obtain rfl := putMsg_of_cmd (hu ▸ hp)
    exact .inr rfl

theorem together_both {p p' : Pool.State} {m m' : Queue.Memory} {failed : Bool} {ev : List Queue.Event}
    (h : Pool.Step p (.task k) p') (ht : p.tasks[k]? = some t) (ht' : p'.tasks[k]? = some t')
    (hw : waits t.pc = false) (hc : u.pc.call = none)
    (hf : failed = (t.pc == .check && decide ((p.objs t.obj).result = -1)))
    (hst : Queue.taskStep m u failed = some (m', u', ev)) (hp : Together t.pc u.pc)
    (htag : u.tag = t.tag) (hop : u.opType = t.opType)
    (hdesc : t.pc = .finalRes → m.ioCmdBuf t.tag = p.iods t.q t.tag) : Together t'.pc u'.pc := by
  have hself : ∀ {v : Pool.Task}, p'.tasks = p.tasks.set k v → t' = v := by
    intro v hv
    rw [hv, List.getElem?_set_self (List.getElem?_eq_some_iff.mp ht).1] at ht'
    exact (Option.some.inj ht').symm
  have hgoto : t.pc = .copyOut → u.pc = .copyOut := by
    intro hpc
    rw [hpc] at hp
    rcases hp with ⟨x, hx⟩ | hx
    · rw [hx] at hc
      cases hc
    · exact hx
  cases h with
  | sendRequest _ v hv hpc | recvComplete _ v hv hpc =>
    obtain rfl : t = v := Option.some.inj (ht.symm.trans hv)
    rw [hpc] at hw
    cases hw
  | check _ v f hv hpc hf' =>
    obtain rfl : t = v := Option.some.inj (ht.symm.trans hv)
    obtain rfl := hself rfl
    have hu : u.pc = .handling := by rwa [hpc] at hp
    rw [hpc, beq_self_eq_true, Bool.true_and, ← hf'] at hf
    simp only [Queue.taskStep, hu] at hst
    cases hst
    rw [hf]
    cases f
    · exact .inr rfl
    · rfl
  | failComplete _ v hv hpc =>
    obtain rfl : t = v := Option.some.inj (ht.symm.trans hv)
    obtain rfl := hself rfl
    have hu : u.pc = .failMark := by rwa [hpc] at hp
    simp only [Queue.taskStep, hu] at hst
    cases hst
    exact .inl ⟨.lock, rfl⟩
  | copyRead _ v hv hpc | copySkip _ v hv hpc =>
    obtain rfl : t = v := Option.some.inj (ht.symm.trans hv)
    obtain rfl := hself rfl
    simp only [Queue.taskStep, hgoto hpc] at hst
    cases hst
    rfl
  | finalRes _ v res hv hpc hres =>
    obtain rfl : t = v := Option.some.inj (ht.symm.trans hv)
    obtain rfl := hself rfl
    have hu : u.pc = .finalRes := by rwa [hpc] at hp
    simp only [Queue.taskStep, hu, hop, htag, hdesc hpc] at hst
    rw [hres]
    split_ifs at hst ⊢ <;> cases hst <;> rfl
  | complete _ v res hv hpc =>
    obtain rfl : t = v := Option.some.inj (ht.symm.trans hv)
    obtain rfl := hself rfl
    have hu : u.pc = .mark res := by rwa [hpc] at hp
    simp only [Queue.taskStep, hu] at hst
    cases hst
    exact .inl ⟨.lock, rfl⟩
  | putMsg _ v hv hpc =>
    obtain rfl : t = v := Option.some.inj (ht.symm.trans hv)
    obtain rfl := hself rfl
    have hu : u.pc = .putMsg := by
      rw [hpc] at hp
      rcases hp with ⟨x, hx⟩ | hx
      · rw [hx] at hc
        cases hc
      · exact hx
    simp only [Queue.taskStep, hu] at hst
    cases hst
    rfl

theorem asked_set {p : Pool.Params} {b : Queue.Act} (hQ : s.queues[q]? = some Q) (h : Queue.step Q b = some Q')
    (hb : ∀ i iod, b = .reap i ublkIoResOk iod → p.admits iod = true)
    (ha : ∀ (q : ℕ) (Q : Queue.State), s.queues[q]? = some Q → ∀ tag rid, Q.thread.pc = .onRequest tag rid →
      p.admits (Q.mem.ioCmdBuf tag) = true) :
    ∀ (r : ℕ) (R : Queue.State), (s.queues.set q Q')[r]? = some R → ∀ tag rid,
      R.thread.pc = .onRequest tag rid → p.admits (R.mem.ioCmdBuf tag) = true := by
  intro r R hR
  rcases List.get_set_cases hR with ⟨-, rfl⟩ | ⟨-, hR⟩
  · exact (Queue.step_cases h).asked hb (ha q Q hQ)
  · exact ha r R hR

section

variable (hj : Joint H info v₀ size maxIoBufBytes s)

include hj

theorem Joint.go {b : Pool.Act} (ha : aside b = true) (h : Store.step H s.store (.pool b) = some st) :
    Joint H info v₀ size maxIoBufBytes { s with store := st } where
  store := by
    refine reach_store hj.store h ?_
    cases b <;> first | rfl | cases ha
  queues := hj.queues
  asked := hj.asked
  paired := by
    have htasks : st.pool.tasks = s.store.pool.tasks := by
      cases Store.step_cases h with
      | pool _ p hb hp =>
        cases Pool.step_cases hp with
        | spawn | unknown | dispatchSend | handlerSend => rfl
        | deliver | handle => cases ha
        | sendRequest | recvComplete | check | failComplete | copyRead | copySkip | finalRes | complete
        | putMsg => cases ha
    apply hj.paired.store
    · rw [htasks]
    · intro k t t' ht ht'
      rw [htasks] at ht'
      obtain rfl : t = t' := Option.some.inj (ht.symm.trans ht')
      exact ⟨.refl t, id, fun _ => id⟩

theorem Joint.call {j : ℕ} (h : Store.step H s.store (.call j) = some st) :
    Joint H info v₀ size maxIoBufBytes { s with store := st } where
  store := reach_store hj.store h trivial
  queues := hj.queues
  asked := hj.asked
  paired := by
    cases Store.step_cases h with
    | call _ g p hg hp =>
      have hst := Pool.step_cases hp
      apply hj.paired.store
      · exact hst.tasks_length rfl
      · intro k t t' ht ht'
        obtain ⟨w, hw, hsame, hc⟩ := hst.commits rfl ht'
        obtain rfl : t = w := Option.some.inj (ht.symm.trans hw)
        refine ⟨hsame, hc, fun pc hpc => ?_⟩
        rw [hst.handled_pc ht ht']
        exact hpc

theorem Joint.exchange (ht : s.store.pool.tasks[k]? = some t) (hw : waits t.pc = true)
    (h : Store.step H s.store (.pool (.task k)) = some st) :
    Joint H info v₀ size maxIoBufBytes { s with store := st } where
  store := reach_store hj.store h rfl
  queues := hj.queues
  asked := hj.asked
  paired := by
    cases Store.step_cases h with
    | pool _ p hb hp =>
      have hst := Pool.step_cases hp
      apply hj.paired.store
      · exact hst.tasks_length rfl
      · intro j v v' hv hv'
        obtain ⟨w, hw', hsame, hc⟩ := hst.commits rfl hv'
        obtain rfl : v = w := Option.some.inj (hv.symm.trans hw')
        refine ⟨hsame, hc, fun pc hpc => ?_⟩
        by_cases hjk : j = k
        · subst hjk
          obtain rfl : t = v := Option.some.inj (ht.symm.trans hv)
          have hself : ∀ {x : Pool.Task}, p.tasks = s.store.pool.tasks.set j x → v' = x := by
            intro x hx
            rw [hx, List.getElem?_set_self (List.getElem?_eq_some_iff.mp ht).1] at hv'
            exact (Option.some.inj hv').symm
          cases hst with
          | sendRequest _ x hx hpx | recvComplete _ x hx hpx =>
            obtain rfl : t = x := Option.some.inj (ht.symm.trans hx)
            obtain rfl := hself rfl
            rw [hpx] at hpc
            exact hpc
          | check _ x f hx hpx | failComplete _ x hx hpx | copyRead _ x hx hpx | copySkip _ x hx hpx
          | finalRes _ x res hx hpx | complete _ x res hx hpx | putMsg _ x hx hpx =>
            obtain rfl : t = x := Option.some.inj (ht.symm.trans hx)
            rw [hpx] at hw
            cases hw
        · obtain ⟨x, hset⟩ := hst.set
          rw [hset, List.getElem?_set_ne (Ne.symm hjk), hv] at hv'
          rwa [← Option.some.inj hv']

theorem Joint.inside (ht : s.store.pool.tasks[k]? = some t) (hx : s.links[k]? = some (q, i))
    (hQ : s.queues[q]? = some Q) (hu : Q.tasks[i]? = some u) (hc : u.pc.call.isSome = true)
    (h : Queue.step Q (.task i false) = some Q') :
    Joint H info v₀ size maxIoBufBytes { s with queues := s.queues.set q Q' } := by
  obtain ⟨q', u', ev, hst, hQ'⟩ := queue_task hu h
  obtain ⟨j, R, v, hpair⟩ := hj.paired.pair k t ht
  obtain ⟨rfl, rfl⟩ := Prod.mk.inj (Option.some.inj (hpair.link.symm.trans hx))
  obtain rfl : R = Q := Option.some.inj (hpair.queue.symm.trans hQ)
  obtain rfl : v = u := Option.some.inj (hpair.task.symm.trans hu)
  have hcases := Queue.taskStep_cases hst
  have hbuf : Q'.mem.ioCmdBuf = R.mem.ioCmdBuf := by
    rw [hQ']
    exact hcases.ioCmdBuf
  constructor
  · exact hj.store
  · intro r S hS
    rcases List.get_set_cases hS with ⟨-, rfl⟩ | ⟨-, hS⟩
    · exact reach_queue (hj.queues _ R hQ) h rfl
    · exact hj.queues r S hS
  · exact asked_set hQ h (fun _ _ he => by cases he) hj.asked
  · refine hj.paired.goroutine hpair rfl rfl ht (fun _ _ => rfl) rfl (by rw [hQ']) hbuf rfl ?_
    exact hpair.fits.next (.refl t) id hcases.tag_eq hcases.opType (fun _ => congrFun hbuf _)
      (together_inside hst hc hpair.fits.pc)

theorem Joint.sound {failed : Bool} (hH : H.Stores size.toInt I contents punch) (hI : I v₀)
    (hs : 0 ≤ size.toInt) (hb : maxIoBufBytes.toNat ≤ defBufSize) (ht : s.store.pool.tasks[k]? = some t)
    (hf : failed = (t.pc == .check && decide ((s.store.pool.objs t.obj).result = -1)))
    (h : Store.step H s.store (.pool (.task k)) = some st) : failed = false := by
  have hreach : (Store.machine H v₀).Reach (Store.Within size maxIoBufBytes) st :=
    reach_store hj.store h rfl
  have hnew := facts_of_reach hH hI hs hb hreach
  cases Store.step_cases h with
  | pool _ p _ hp =>
    have hstep := Pool.step_cases hp
    obtain ⟨t', ht'⟩ := exists_get (hstep.tasks_length rfl) ht
    rw [hf]
    exact not_failing hstep ht ht' (hnew.transfer t' (List.mem_of_getElem? ht')).sound

theorem Joint.both {failed : Bool} (hH : H.Stores size.toInt I contents punch) (hI : I v₀)
    (hs : 0 ≤ size.toInt) (hb : maxIoBufBytes.toNat ≤ defBufSize) (ht : s.store.pool.tasks[k]? = some t)
    (hx : s.links[k]? = some (q, i)) (hQ : s.queues[q]? = some Q) (hu : Q.tasks[i]? = some u)
    (hw : waits t.pc = false) (hc : u.pc.call = none)
    (hf : failed = (t.pc == .check && decide ((s.store.pool.objs t.obj).result = -1)))
    (h : Store.step H s.store (.pool (.task k)) = some st) (h' : Queue.step Q (.task i failed) = some Q') :
    Joint H info v₀ size maxIoBufBytes { s with store := st, queues := s.queues.set q Q' } := by
  obtain ⟨q', u', ev, hst, hQ'⟩ := queue_task hu h'
  obtain ⟨j, R, v, hpair⟩ := hj.paired.pair k t ht
  obtain ⟨rfl, rfl⟩ := Prod.mk.inj (Option.some.inj (hpair.link.symm.trans hx))
  obtain rfl : R = Q := Option.some.inj (hpair.queue.symm.trans hQ)
  obtain rfl : v = u := Option.some.inj (hpair.task.symm.trans hu)
  have hold := facts_of_reach hH hI hs hb hj.store
  have hreach : (Store.machine H v₀).Reach (Store.Within size maxIoBufBytes) st :=
    reach_store hj.store h rfl
  cases Store.step_cases h with
  | pool _ p hb' hp =>
    have hstep := Pool.step_cases hp
    obtain ⟨t', hset⟩ := hstep.set
    have ht' : p.tasks[k]? = some t' := by
      rw [hset, List.getElem?_set_self (List.getElem?_eq_some_iff.mp ht).1]
    obtain ⟨w, hw', hsame, hcommits⟩ := hstep.commits rfl ht'
    obtain rfl : t = w := Option.some.inj (ht.symm.trans hw')
    have hfalse := hj.sound hH hI hs hb ht hf h
    have hdesc : t.pc = .finalRes → R.mem.ioCmdBuf t.tag = s.store.pool.iods t.q t.tag := by
      intro hpc
      have hreport := hold.report t (List.mem_of_getElem? ht)
      have hn := Pool.uncommitted hreport.reported (hold.transfer t (List.mem_of_getElem? ht)).sound
        (.inl (by rw [hpc]; rfl))
      rw [hpair.fits.desc hn, hreport.current hn]
    have hcases := Queue.taskStep_cases hst
    have hbuf : Q'.mem.ioCmdBuf = R.mem.ioCmdBuf := by
      rw [hQ']
      exact hcases.ioCmdBuf
    constructor
    · exact hreach
    · intro r S hS
      rcases List.get_set_cases hS with ⟨-, rfl⟩ | ⟨-, hS⟩
      · exact reach_queue (hj.queues _ R hQ) h' hfalse
      · exact hj.queues r S hS
    · exact asked_set hQ h' (fun _ _ he => by cases he) hj.asked
    · refine hj.paired.goroutine hpair rfl (hstep.tasks_length rfl) ht' ?_ rfl (by rw [hQ']) hbuf hsame.q ?_
      · intro l hl
        change p.tasks[l]? = _
        rw [hset, List.getElem?_set_ne hl.symm]
      · have hpc := together_both hstep ht ht' hw hc hf hst hpair.fits.pc hpair.fits.tag hpair.fits.opType hdesc
        exact hpair.fits.next hsame hcommits hcases.tag_eq hcases.opType (fun _ => congrFun hbuf _) hpc

theorem Joint.queue {b : Queue.Act} {acks : List (Atomic.Event Store.Op Store.Result)}
    (hH : H.Stores size.toInt I contents punch) (hI : I v₀) (hs : 0 ≤ size.toInt)
    (hb : maxIoBufBytes.toNat ≤ defBufSize) (ha : solo b = true)
    (hadm : ∀ i iod, b = .reap i ublkIoResOk iod → (initParams maxIoBufBytes (sectors size)).admits iod = true)
    (hQ : s.queues[q]? = some Q) (h : Queue.step Q b = some Q') :
    Joint H info v₀ size maxIoBufBytes { s with queues := s.queues.set q Q', acks := acks } := by
  have hsound : ∀ t, Queue.NoFailure t b := by
    intro t
    cases b <;> first | rfl | cases ha
  have hapart := (Queue.step_cases h).apart (fun r he => by subst he; cases ha)
    (fun i f he => by subst he; cases ha)
  constructor
  · exact hj.store
  · intro r S hS
    rcases List.get_set_cases hS with ⟨-, rfl⟩ | ⟨-, hS⟩
    · exact reach_queue (hj.queues q Q hQ) h (hsound Q)
    · exact hj.queues r S hS
  · exact asked_set hQ h hadm hj.asked
  · refine hj.paired.queue hQ hapart.tasks ?_
    intro k t i u ht hpair hc
    apply hapart.desc
    intro j c hd
    have hm := hj.mayFill hH hI hs hb ht hc hpair
    have hne := Queue.driver_apart (hj.queues q Q hQ) hd (List.mem_of_getElem? hpair.task) hm
    rwa [hpair.fits.tag] at hne

/-- A request is passed on with its tag free, and so is one that the goroutine model allows. -/
theorem Joint.request {buf : ℕ → UInt8} {tag rid o : ℕ} (hH : H.Stores size.toInt I contents punch)
    (hI : I v₀) (hs : 0 ≤ size.toInt) (hb : maxIoBufBytes.toNat ≤ defBufSize) (hQ : s.queues[q]? = some Q)
    (hpc : Q.thread.pc = .onRequest tag rid) (ho : s.store.pool.msgChan[i]? = some o)
    (h : Queue.step Q (.onRequest true) = some Q') :
    Joint H info v₀ size maxIoBufBytes (s.passed q tag Q Q' buf o i) := by
  have hfree := hj.tagFree hH hI hs hb hQ hpc
  have hadm := hj.asked q Q hQ tag rid hpc
  have hiss := issued_of_bounded (Pool.bounded_of_admits hs hb hadm)
  have hpool : Pool.step s.store.pool (.deliver q tag (Q.mem.ioCmdBuf tag) buf i) =
      some (delivered s.store.pool q tag (Q.mem.ioCmdBuf tag) buf o i) := by
    simp only [Pool.step, hiss, hfree, Bool.and_self, if_true, ho, Option.map_some]
    rfl
  have hstore : Store.step H s.store (.pool (.deliver q tag (Q.mem.ioCmdBuf tag) buf i)) =
      some (s.passed q tag Q Q' buf o i).store := by
    simp only [Store.step, hpool, Option.map_some]
    rfl
  have hQ' : Q' = { Q.goto .fetchAdd with
      tasks := Q.tasks ++
        [⟨rid, tag, reqToLonghornCmdType (Q.mem.ioCmdBuf tag), false, .handling, [], 0⟩] } := by
    simp only [Queue.step, hpc, if_true] at h
    exact (Option.some.inj h).symm
  constructor
  · exact reach_store hj.store hstore hadm
  · intro r S hS
    rcases List.get_set_cases hS with ⟨-, rfl⟩ | ⟨-, hS⟩
    · exact reach_queue (hj.queues q Q hQ) h rfl
    · exact hj.queues r S hS
  · exact asked_set hQ h (fun _ _ he => by cases he) hj.asked
  · exact hj.paired.request hQ hQ'

end

section

variable (hH : H.Stores size.toInt I contents punch) (hI : I v₀) (hs : 0 ≤ size.toInt)
  (hb : maxIoBufBytes.toNat ≤ defBufSize)

include hH hI hs hb

theorem Joint.step (hj : Joint H info v₀ size maxIoBufBytes s) (hw : Within size maxIoBufBytes s a)
    (h : Step H s a s') : Joint H info v₀ size maxIoBufBytes s' := by
  cases h with
  | queue q b Q Q' ha hQ hst =>
    refine hj.queue hH hI hs hb ha ?_ hQ hst
    intro i iod he
    subst he
    exact hw
  | request q buf i Q Q' tag rid o hQ hpc ho hst => exact hj.request hH hI hs hb hQ hpc ho hst
  | go b st ha hst => exact hj.go ha hst
  | call j st hst => exact hj.call hst
  | exchange k t st ht hwait hst => exact hj.exchange ht hwait hst
  | inside k t q i Q Q' u ht hx hQ hu hc hst => exact hj.inside ht hx hQ hu hc hst
  | both k t q i Q Q' u failed st ht hx hQ hu hwait hc hf hst hst' =>
    exact hj.both hH hI hs hb ht hx hQ hu hwait hc hf hst hst'

theorem joint_reach (h : (machine H info v₀).Reach (Within size maxIoBufBytes) s) :
    Joint H info v₀ size maxIoBufBytes s := by
  apply h.invariant
  · rintro t ⟨queues, store, rfl, ⟨iods, bufs, rfl⟩, hinit⟩
    constructor
    · exact .init ⟨iods, bufs, rfl⟩
    · intro q Q hQ
      obtain ⟨buf, mem, m, hm, rfl⟩ := hinit q Q hQ
      exact .init ⟨q, buf, mem, m, hm, rfl⟩
    · intro q Q hQ tag rid hpc
      obtain ⟨buf, mem, m, -, rfl⟩ := hinit q Q hQ
      cases hpc
    · constructor
      · intro k t ht
        cases ht
      · intro q Q i u hQ hu
        obtain ⟨buf, mem, m, -, rfl⟩ := hinit q Q hQ
        cases hu
      · rfl
      · exact List.nodup_nil
  · intro t b t' _ hj hw hst
    exact hj.step hH hI hs hb hw (step_cases hst)

end

def twoQueues : List Queue.State :=
  [0, 1].filterMap fun q => (ublksrvQueueInit (ublksrvDevInit twoTags) q (fun _ => 0) zeroed).map Queue.start

theorem twoQueues_init {q : ℕ} {Q : Queue.State} (h : twoQueues[q]? = some Q) : ∃ buf mem m,
    ublksrvQueueInit (ublksrvDevInit twoTags) q buf mem = some m ∧ Q = Queue.start m := by
  have hinit : ∀ {x}, (ublksrvQueueInit (ublksrvDevInit twoTags) q (fun _ => 0) zeroed).map Queue.start = x →
      x = some Q → ∃ buf mem m, ublksrvQueueInit (ublksrvDevInit twoTags) q buf mem = some m ∧
        Q = Queue.start m := by
    rintro x rfl hx
    obtain ⟨m, hm, rfl⟩ := Option.map_eq_some_iff.mp hx
    exact ⟨_, _, m, hm, rfl⟩
  match q with
  | 0 => exact hinit rfl h
  | 1 => exact hinit rfl h
  | _ + 2 => cases h

/-- A request comes from the driver on tag 0, and is passed on. -/
def arriving (q : ℕ) (iod : IoDesc) (byte : UInt8) : List Act :=
  List.replicate 4 (.queue q .thread) ++
    [.queue q (.submit 2), .queue q (.waitCqe false), .queue q (.reap 0 ublkIoResOk iod), .request q (fun _ => byte) 0,
      .queue q .thread, .queue q .reapEnd]

/-- A read on one queue overtakes a write of the same sectors on another; the write is completed, the
read is still with its handler. -/
def served : Option (State Store.Disk) :=
  (machine (Store.memoryHandler 8192) twoTags Store.blank).runIf
    (fun _ a => admitted (initParams 524288 (sectors 8192)) a && !a.drifts)
    ⟨twoQueues, ⟨Pool.start (fun _ _ => ⟨0, 0, 0, 0⟩) fun _ _ _ => 0, Store.blank, []⟩, [], fun _ _ => 0, []⟩
    (arriving 0 ⟨1, 8, 0, 4096⟩ 7 ++ arriving 1 ⟨0, 8, 0, 4096⟩ 0 ++
      [.task 0, .go .dispatch, .task 1, .go .dispatch, .call 1, .call 0, .go (.handlerSend 0)] ++
      List.replicate 12 (.task 0) ++ List.replicate 4 (.queue 0 .thread) ++
      [.queue 0 (.submit 1), .queue 0 (.waitCqe false)])

set_option maxRecDepth 8000

theorem served_runs : served.isSome = true := by decide +kernel

theorem served_orderly :
    (machine (Store.memoryHandler 8192) twoTags Store.blank).Reach (Orderly 8192 524288) (served.get served_runs) := by
  refine .of_runIf (.init ⟨_, _, rfl, ⟨_, _, rfl⟩, fun _ _ => twoQueues_init⟩) ?_ (Option.some_get _).symm
  intro t a ha
  rw [Bool.and_eq_true, Bool.not_eq_true'] at ha
  exact ha

theorem served_reach :
    (machine (Store.memoryHandler 8192) twoTags Store.blank).Reach (Within 8192 524288) (served.get served_runs) :=
  within_reach served_orderly

end GoUblksrv.Service
