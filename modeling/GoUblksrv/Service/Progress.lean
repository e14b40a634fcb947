import GoUblksrv.Queue.Progress
import GoUblksrv.Service.Acks

namespace GoUblksrv.Service

open Pool (sectors initParams)
open Store (IOHandler Disk)
open Queue (twoTags)

variable {τ : Type*} {H : IOHandler τ} {info : Queue.DevInfo} {s s' : State τ} {a : Act} {v₀ : τ}
  {size : Int64} {I : τ → Prop} {contents : τ → Disk} {punch : Disk → ℕ → ℕ → Disk}
  {maxIoBufBytes : UInt32} {t : Pool.Task} {Q Q' : Queue.State} {u : Queue.Task} {k q i : ℕ}

def Act.own : Act → Bool
  | .queue _ .thread | .queue _ .reapEnd | .request .. | .go _ | .call _ | .task _ => true
  | .queue _ .spurious | .queue _ (.submit _) | .queue _ (.waitCqe _) | .queue _ (.reap ..) | .queue _ (.onRequest _)
  | .queue _ (.task ..) => false

def Own (a : Act) : Prop := a.own = true

theorem orderly_own (ha : Own a) : Orderly size maxIoBufBytes s a := by
  cases a with
  | queue q b => cases b <;> first | exact ⟨rfl, rfl⟩ | cases ha
  | request | go | call | task => exact ⟨rfl, rfl⟩

/-- A request is passed on at the cost of one step of the queue, and brings eleven to the goroutines. -/
def State.potential (s : State τ) : ℕ :=
  12 * (s.queues.map Queue.State.potential).sum + s.store.pool.remaining

theorem remaining_delivered (p : Pool.State) (q tag : ℕ) (iod : IoDesc) (buf : ℕ → UInt8) (o i : ℕ) :
    (delivered p q tag iod buf o i).remaining = p.remaining + 11 := by
  simp only [delivered, Pool.onRequestAsync, Pool.State.remaining, Pool.State.setObj, List.map_append,
    List.sum_append, List.map_singleton, List.sum_singleton, Pool.Task.rank, Pool.TaskPc.rank]
  omega

theorem sum_potential_set (hQ : s.queues[q]? = some Q) (hlt : Q'.potential < Q.potential) :
    ((s.queues.set q Q').map Queue.State.potential).sum < (s.queues.map Queue.State.potential).sum := by
  have hsum := List.sum_map_set_of_get (b := Q') (f := Queue.State.potential) hQ
  omega

theorem remaining_lt {b : Store.Act} {st st' : Store.State τ} (h : Store.step H st b = some st')
    (hb : b.delivers = false) : st'.pool.remaining < st.pool.remaining := by
  cases Store.step_cases h with
  | pool _ p _ hp => exact Pool.remaining_step (Pool.step_cases hp) hb
  | call _ g p _ hp => exact Pool.remaining_step (Pool.step_cases hp) rfl

theorem potential_step (hH : H.Stores size.toInt I contents punch) (hI : I v₀) (hs : 0 ≤ size.toInt)
    (hb : maxIoBufBytes.toNat ≤ defBufSize) (hj : Joint H info v₀ size maxIoBufBytes s) (ha : Own a)
    (h : Step H s a s') : s'.potential < s.potential := by
  cases h with
  | queue q b Q Q' hsolo hQ hst =>
    have hown : Queue.Own b := by cases b <;> first | rfl | cases ha
    have hlt := sum_potential_set hQ (Queue.potential_step (Queue.step_cases hst) hown)
    simp only [State.potential]
    omega
  | request q buf i Q Q' tag rid o hQ hpc ho hst =>
    have hlt := sum_potential_set hQ (Queue.potential_step (Queue.step_cases hst) rfl)
    simp only [State.potential, State.passed, remaining_delivered]
    omega
  | go b st haside hst =>
    have hlt := remaining_lt hst (by cases b <;> first | rfl | cases haside)
    simp only [State.potential]
    omega
  | call j st hst =>
    have hlt := remaining_lt hst rfl
    simp only [State.potential]
    omega
  | exchange k t st ht hw hst =>
    have hlt := remaining_lt hst rfl
    simp only [State.potential]
    omega
  | inside k t q i Q Q' u ht hx hQ hu hc hst =>
    have hlt := sum_potential_set hQ (Queue.potential_step (Queue.step_cases hst) rfl)
    simp only [State.potential]
    omega
  | both k t q i Q Q' u failed st ht hx hQ hu hw hc hf hst hst' =>
    obtain rfl := hj.sound hH hI hs hb ht hf hst
    have hlt := sum_potential_set hQ (Queue.potential_step (Queue.step_cases hst') rfl)
    have hrem := remaining_lt hst rfl
    simp only [State.potential]
    omega

theorem orderly_set {b : Queue.Act} (hQ : s.queues[q]? = some Q) (hst : Queue.step Q b = some Q')
    (hb : Queue.Orderly Q b)
    (h : ∀ (q : ℕ) (Q : Queue.State), s.queues[q]? = some Q → (Queue.machine info).Reach Queue.Orderly Q) :
    ∀ (r : ℕ) (R : Queue.State), (s.queues.set q Q')[r]? = some R → (Queue.machine info).Reach Queue.Orderly R := by
  intro r R hR
  rcases List.get_set_cases hR with ⟨-, rfl⟩ | ⟨-, hR⟩
  · exact (h q Q hQ).step hb hst
  · exact h r R hR

section

variable (hH : H.Stores size.toInt I contents punch) (hI : I v₀) (hs : 0 ≤ size.toInt)
  (hb : maxIoBufBytes.toNat ≤ defBufSize)

include hH hI hs hb

theorem orderly_queues (h : (machine H info v₀).Reach (Orderly size maxIoBufBytes) s) (q : ℕ)
    (Q : Queue.State) (hQ : s.queues[q]? = some Q) : (Queue.machine info).Reach Queue.Orderly Q := by
  revert q Q
  apply h.invariant (I := fun s => ∀ (q : ℕ) (Q : Queue.State), s.queues[q]? = some Q →
    (Queue.machine info).Reach Queue.Orderly Q)
  · rintro t ⟨queues, store, rfl, -, hinit⟩ q Q hQ
    obtain ⟨buf, mem, m, hm, rfl⟩ := hinit q Q hQ
    exact .init ⟨q, buf, mem, m, hm, rfl⟩
  · intro t b t' hr ih hord hstep
    have hj := joint_reach hH hI hs hb (within_reach hr)
    cases step_cases hstep with
    | queue q b Q Q' hsolo hQ hst =>
      refine orderly_set hQ hst ⟨hord.2, ?_⟩ ih
      rintro rfl
      cases hsolo
    | request q buf i Q Q' tag rid o hQ hpc ho hst =>
      have hown : Queue.Own (.onRequest true) := rfl
      exact orderly_set hQ hst (Queue.orderly_own hown Q) ih
    | go | call | exchange => exact ih
    | inside k t q i Q Q' u ht hx hQ hu hc hst =>
      have hown : Queue.Own (.task i false) := rfl
      exact orderly_set hQ hst (Queue.orderly_own hown Q) ih
    | both k t q i Q Q' u failed st ht hx hQ hu hw hc hf hst hst' =>
      obtain rfl := hj.sound hH hI hs hb ht hf hst
      have hown : Queue.Own (.task i false) := rfl
      exact orderly_set hQ hst' (Queue.orderly_own hown Q) ih

theorem lowers : (machine H info v₀).Lowers Own
    (fun s => (machine H info v₀).Reach (Orderly size maxIoBufBytes) s) State.potential where
  keeps _ _ _ hr ha hst := hr.step (orderly_own ha) hst
  lowers _ _ _ hr ha hst := by
    have hj := joint_reach hH hI hs hb (within_reach hr)
    exact potential_step hH hI hs hb hj ha (step_cases hst)

end

/-- Only the driver can go on: the queue threads are in their calls of the kernel, nothing is left with
the goroutines and handlers, and what the driver has not been told of is in an SQ. -/
structure AtRest (s : State τ) : Prop where
  settled : ∀ (q : ℕ) (Q : Queue.State), s.queues[q]? = some Q → Queue.Settled Q
  drained : Pool.Drained s.store.pool
  answered : ∀ k op, .invoke k op ∈ s.acks → (∃ r, .respond k r ∈ s.acks) ∨
    ∃ q Q e res, s.queues[q]? = some Q ∧ e ∈ Q.mem.ring.sq ∧ e.cmd.result = some res ∧ s.last q e.tag = k

theorem Paired.exists_task (hp : Paired s) (hQ : s.queues[q]? = some Q) (hu : Q.tasks[i]? = some u) :
    ∃ (k : ℕ) (t : Pool.Task), s.store.pool.tasks[k]? = some t ∧ s.links[k]? = some (q, i) ∧ Pair s k t i Q u := by
  obtain ⟨k, hk⟩ := hp.total q Q i u hQ hu
  have hlt : k < s.store.pool.tasks.length := hp.length ▸ (List.getElem?_eq_some_iff.mp hk).1
  obtain ⟨t, ht⟩ : ∃ t, s.store.pool.tasks[k]? = some t := ⟨_, List.getElem?_eq_getElem hlt⟩
  obtain ⟨j, R, v, hpair⟩ := hp.pair k t ht
  obtain ⟨hq, rfl⟩ := Prod.mk.inj (Option.some.inj (hpair.link.symm.trans hk))
  have hR := hpair.queue
  rw [hq] at hR
  obtain rfl : Q = R := Option.some.inj (hQ.symm.trans hR)
  obtain rfl : u = v := Option.some.inj (hu.symm.trans hpair.task)
  exact ⟨k, t, ht, hk, hpair⟩

theorem not_waits_of_call {pc : Pool.TaskPc} (h : Together pc u.pc) (hc : u.pc.call.isSome = true) :
    waits pc = false := by
  cases pc with
  | sendRequest | recvComplete =>
    simp only [Together] at h
    rw [h] at hc
    cases hc
  | _ => rfl

section

variable (hp : Paired s) (hq : (machine H info v₀).Quiet Own s)

include hp hq

theorem no_callMoves (hQ : s.queues[q]? = some Q) : ¬ Queue.CallMoves Q := by
  rintro ⟨b, hb, hs⟩
  obtain ⟨Q', hQ'⟩ := Option.isSome_iff_exists.mp hs
  cases b with
  | thread =>
    have hnone : step H s (.queue q .thread) = none := hq (.queue q .thread) rfl
    simp [step, solo, hQ, hQ'] at hnone
  | task i failed =>
    simp only [Queue.Act.inside, Bool.and_eq_true, Bool.not_eq_true'] at hb
    obtain ⟨rfl, hany⟩ := hb
    obtain ⟨u, hu, hc⟩ := (Option.any_eq_true _ _).mp hany
    obtain ⟨k, t, ht, hk, hpair⟩ := hp.exists_task hQ hu
    have hwait := not_waits_of_call hpair.fits.pc hc
    have hnone : taskStep H s k = none := hq (.task k) rfl
    simp [taskStep, ht, hk, hQ, hu, hwait, hc, hQ'] at hnone
  | spurious | submit | waitCqe | reap | reapEnd | onRequest => cases hb

end

section

variable (hH : H.Stores size.toInt I contents punch) (hI : I v₀) (hs : 0 ≤ size.toInt)
  (hb : maxIoBufBytes.toNat ≤ defBufSize) (h : (machine H info v₀).Reach (Orderly size maxIoBufBytes) s)
  (hq : (machine H info v₀).Quiet Own s)

include hH hI hs hb h hq

/-- No goroutine waits in the call, so each moves as soon as the goroutine model lets it. -/
theorem quiet_task (k : ℕ) : Store.step H s.store (.pool (.task k)) = none := by
  have hj := joint_reach hH hI hs hb (within_reach h)
  cases ht : s.store.pool.tasks[k]? with
  | none => simp [Store.step, Pool.step, ht]
  | some t =>
    by_contra hne
    obtain ⟨st, hst⟩ := Option.ne_none_iff_exists'.mp hne
    obtain ⟨i, Q, u, hpair⟩ := hj.paired.pair k t ht
    have hcall : u.pc.call = none := by
      by_contra hc
      obtain ⟨pc, hc⟩ := Option.ne_none_iff_exists'.mp hc
      apply no_callMoves hj.paired hq hpair.queue
      exact Queue.callMoves_of_call (orderly_queues hH hI hs hb h t.q Q hpair.queue) hpair.task hc
    have hnone : taskStep H s k = none := hq (.task k) rfl
    cases hw : waits t.pc with
    | true => simp [taskStep, ht, hpair.link, hpair.queue, hpair.task, hw, hst] at hnone
    | false =>
      have hended : u.pc ≠ .ended := by
        intro hu
        have hpc := hpair.fits.pc
        rw [hu] at hpc
        cases Store.step_cases hst with
        | pool _ p _ hp =>
          cases Pool.step_cases hp with
          | sendRequest _ v hv hp' | recvComplete _ v hv hp' | check _ v _ hv hp' | failComplete _ v hv hp'
          | copyRead _ v hv hp' | copySkip _ v hv hp' | finalRes _ v _ hv hp' | complete _ v _ hv hp'
          | putMsg _ v hv hp' =>
            obtain rfl : t = v := Option.some.inj (ht.symm.trans hv)
            simp [hp', Together] at hpc
      have hsound := hj.sound hH hI hs hb ht rfl hst
      obtain ⟨r, hr⟩ := Option.isSome_iff_exists.mp (Queue.taskStep_enabled (q := Q.mem) hcall hended)
      simp [taskStep, ht, hpair.link, hpair.queue, hpair.task, hw, hcall, hst, hsound, Queue.step, hr] at hnone

theorem quiet_drained : Pool.Drained s.store.pool := by
  have hj := joint_reach hH hI hs hb (within_reach h)
  apply Store.drained_of_quiet hH hI hs hb hj.store
  intro b hint
  cases b with
  | call j =>
    have hnone : step H s (.call j) = none := hq (.call j) rfl
    exact Option.map_eq_none_iff.mp hnone
  | pool b =>
    cases b with
    | deliver => cases hint
    | handle => rfl
    | task k => exact quiet_task hH hI hs hb h hq k
    | dispatch =>
      have hnone : step H s (.go .dispatch) = none := hq (.go .dispatch) rfl
      exact Option.map_eq_none_iff.mp hnone
    | dispatchSend =>
      have hnone : step H s (.go .dispatchSend) = none := hq (.go .dispatchSend) rfl
      exact Option.map_eq_none_iff.mp hnone
    | handlerSend j =>
      have hnone : step H s (.go (.handlerSend j)) = none := hq (.go (.handlerSend j)) rfl
      exact Option.map_eq_none_iff.mp hnone

theorem quiet_ended (hQ : s.queues[q]? = some Q) : ∀ u ∈ Q.tasks, u.pc = .ended := by
  intro u hm
  obtain ⟨i, hu⟩ := List.mem_iff_getElem?.mp hm
  have hj := joint_reach hH hI hs hb (within_reach h)
  obtain ⟨k, t, ht, -, hpair⟩ := hj.paired.exists_task hQ hu
  have hpc := hpair.fits.pc
  rw [(quiet_drained hH hI hs hb h hq).ended t (List.mem_of_getElem? ht)] at hpc
  exact hpc

theorem quiet_queue (hQ : s.queues[q]? = some Q) : (Queue.machine info).Quiet Queue.Own Q := by
  have hj := joint_reach hH hI hs hb (within_reach h)
  intro b hown
  change Queue.step Q b = none
  cases b with
  | thread =>
    have hnone : step H s (.queue q .thread) = none := hq (.queue q .thread) rfl
    simpa [step, solo, hQ] using hnone
  | reapEnd =>
    have hnone : step H s (.queue q .reapEnd) = none := hq (.queue q .reapEnd) rfl
    simpa [step, solo, hQ] using hnone
  | onRequest registered =>
    cases registered with
    | false => cases hown
    | true =>
      by_contra hne
      obtain ⟨Q', hst⟩ := Option.ne_none_iff_exists'.mp hne
      have hlen := (quiet_drained hH hI hs hb h hq).msgChan.length_eq
      rw [List.length_range] at hlen
      obtain ⟨o, ho⟩ : ∃ o, s.store.pool.msgChan[0]? = some o := ⟨_, List.getElem?_eq_getElem (by omega)⟩
      have hnone : requestStep s q (fun _ => 0) 0 = none := hq (.request q (fun _ => 0) 0) rfl
      cases Queue.step_cases hst with
      | request tag rid hpc => simp [requestStep, hQ, hpc, ho, Queue.step] at hnone
  | task i failed =>
    cases hu : Q.tasks[i]? with
    | none => simp [Queue.step, hu]
    | some u =>
      have hended := quiet_ended hH hI hs hb h hq hQ u (List.mem_of_getElem? hu)
      simp [Queue.step, hu, Queue.taskStep, hended]
  | spurious | submit | waitCqe | reap => cases hown

theorem atRest_of_quiet : AtRest s := by
  have hj := joint_reach hH hI hs hb (within_reach h)
  have ha := acked_reach hH hI hs hb (within_reach h)
  constructor
  · intro q Q hQ
    exact Queue.settled_of_quiet (orderly_queues hH hI hs hb h q Q hQ) (quiet_queue hH hI hs hb h hq hQ)
  · exact quiet_drained hH hI hs hb h hq
  · intro k op hop
    have hlt : k < s.store.pool.tasks.length := ha.bounded _ hop
    have ht := List.getElem?_eq_getElem hlt
    obtain ⟨i, Q, u, hpair⟩ := hj.paired.pair k _ ht
    have hended := quiet_ended hH hI hs hb h hq hpair.queue u (List.mem_of_getElem? hpair.task)
    have htold := ha.told k _ i Q u ht hpair
    rcases htold.passed (by simp [Queue.Task.mayFill, hended]) with hr | ⟨hlast, e, he, htag, hsome⟩
    · exact .inl hr
    · obtain ⟨res, hres⟩ := Option.isSome_iff_exists.mp hsome
      exact .inr ⟨_, Q, e, res, hpair.queue, he, hres, by rw [htag, hlast]⟩

end

theorem comes_to_rest (H : IOHandler τ) (size : Int64) (I : τ → Prop) (contents : τ → Disk)
    (punch : Disk → ℕ → ℕ → Disk) (hH : H.Stores size.toInt I contents punch) (v₀ : τ) (hI : I v₀)
    (maxIoBufBytes : UInt32) (hs : 0 ≤ size.toInt) (hb : maxIoBufBytes.toNat ≤ defBufSize)
    (info : Queue.DevInfo) (s : State τ) (h : (machine H info v₀).Reach (Orderly size maxIoBufBytes) s)
    (as : List Act) (s' : State τ) (ha : ∀ a ∈ as, Own a) (hr : (machine H info v₀).run s as = some s') :
    as.length ≤ s.potential ∧ ((machine H info v₀).Quiet Own s' → AtRest s') ∧
      ∃ bs t, (∀ a ∈ bs, Own a) ∧ (machine H info v₀).run s' bs = some t ∧ AtRest t := by
  have hlow : (machine H info v₀).Lowers Own
      (fun s => (machine H info v₀).Reach (Orderly size maxIoBufBytes) s) State.potential := lowers hH hI hs hb
  obtain ⟨h', -⟩ := hlow.run_add_le h ha hr
  refine ⟨hlow.run_length_le h ha hr, atRest_of_quiet hH hI hs hb h', ?_⟩
  obtain ⟨bs, t, hbs, ht, hq⟩ := hlow.exists_quiet h'
  exact ⟨bs, t, hbs, ht, atRest_of_quiet hH hI hs hb (hlow.run_add_le h' hbs ht).1 hq⟩

def answering : List Act :=
  [.task 0, .task 0, .go (.handlerSend 0), .task 1, .queue 0 .reapEnd, .task 1, .task 1]

theorem comes_to_rest_served :
    ∃ s', (machine (Store.memoryHandler 8192) twoTags Store.blank).run (served.get served_runs) answering = some s' ∧
      answering.length ≤ (served.get served_runs).potential ∧
      ∃ bs t, (∀ a ∈ bs, Own a) ∧
        (machine (Store.memoryHandler 8192) twoTags Store.blank).run s' bs = some t ∧ AtRest t := by
  have hsome : ((machine (Store.memoryHandler 8192) twoTags Store.blank).run (served.get served_runs)
      answering).isSome = true := by
    decide +kernel
  obtain ⟨s', hr⟩ := Option.isSome_iff_exists.mp hsome
  have hown : ∀ a ∈ answering, Own a := by simp [answering, Own, Act.own]
  have h := comes_to_rest (Store.memoryHandler 8192) 8192 (fun _ => True) id Store.zeroing
    (Store.memoryHandler_stores (by decide)) Store.blank trivial 524288 (by decide) (by decide) twoTags _
    served_orderly answering s' hown hr
  exact ⟨s', hr, h.1, h.2.2⟩

end GoUblksrv.Service
