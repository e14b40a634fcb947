import GoUblksrv.Lib.Enclosed
import GoUblksrv.Service.Joint

namespace GoUblksrv.Pool

variable {s s' : State} {a : Act}

theorem Step.bufs (h : Step s a s') (hd : a.delivers = false) (r tag : ℕ)
    (hk : ∀ (k : ℕ) (t : Task), a = .task k → s.tasks[k]? = some t → t.pc = .copyOut → r = t.q → tag ≠ t.tag) :
    s'.bufs r tag = s.bufs r tag := by
  cases h with
  | deliver => cases hd
  | copyRead k t ht hp => exact update_tag fun hr htag => hk k t rfl ht hp hr htag
  | _ => rfl

end GoUblksrv.Pool

namespace GoUblksrv.Service

open Atomic (Event Encloses)
open Pool (sectors initParams)
open Store (IOHandler Disk Op Result)
open Queue (twoTags)

variable {τ : Type*} {H : IOHandler τ} {info : Queue.DevInfo} {s s' : State τ} {a : Act} {v₀ : τ}
  {size : Int64} {I : τ → Prop} {contents : τ → Disk} {punch : Disk → ℕ → ℕ → Disk}
  {maxIoBufBytes : UInt32} {t t' : Pool.Task} {Q Q' : Queue.State} {u u' : Queue.Task} {k q i tag : ℕ}
  {res : Int32} {st : Store.State τ} {e : Queue.Sqe}

def Unacked (s : State τ) (k : ℕ) : Prop := ∀ r, .respond k r ∉ s.acks

/-- A commit of `res` on the tag is that of the request that the driver waits for there. -/
structure Answered (s : State τ) (q tag : ℕ) (res : Int32) : Prop where
  answer : ∃ t, s.store.pool.tasks[s.last q tag]? = some t ∧ t.q = q ∧ t.tag = tag ∧
    .respond (s.last q tag) (Store.seen s.store.pool t res) ∈ s.store.history
  unacked : Unacked s (s.last q tag)

/-- How far the request of a goroutine is from its end, for the driver. -/
structure Told (s : State τ) (k : ℕ) (t : Pool.Task) (Q : Queue.State) (u : Queue.Task) : Prop where
  held : u.mayFill = true → s.last t.q t.tag = k ∧ Unacked s k
  marked : u.pc = .cmd .lock ∨ u.pc = .cmd .fill →
    .respond k (Store.seen s.store.pool t (Q.mem.ios t.tag).result.toInt32) ∈ s.store.history
  passed : u.mayFill = false → (∃ r, .respond k r ∈ s.acks) ∨
    s.last t.q t.tag = k ∧ ∃ e ∈ Q.mem.ring.sq, e.tag = t.tag ∧ e.cmd.result.isSome = true

structure Acked (s : State τ) : Prop where
  encloses : Encloses s.acks s.store.history
  commands : ∀ (q : ℕ) (Q : Queue.State) (e : Queue.Sqe) (res : Int32), s.queues[q]? = some Q →
    e ∈ Q.mem.ring.sq → e.cmd.result = some res → Answered s q e.tag res
  told : ∀ (k : ℕ) (t : Pool.Task) (i : ℕ) (Q : Queue.State) (u : Queue.Task),
    s.store.pool.tasks[k]? = some t → Pair s k t i Q u → Told s k t Q u
  once : (s.acks.filterMap Event.ends).Nodup
  bounded : ∀ e ∈ s.acks, e.id < s.store.pool.tasks.length

/-- The goroutines go on, and the driver is told of no end. -/
structure Grows (s s' : State τ) : Prop where
  tasks : ∀ (k : ℕ) (t : Pool.Task), s.store.pool.tasks[k]? = some t →
    ∃ t', s'.store.pool.tasks[k]? = some t' ∧ t'.Same t
  history : s.store.history ⊆ s'.store.history
  acks : ∀ k r, .respond k r ∈ s'.acks ↔ .respond k r ∈ s.acks

structure Still (s s' : State τ) (q tag : ℕ) : Prop where
  last : s'.last q tag = s.last q tag
  bufs : s'.store.pool.bufs q tag = s.store.pool.bufs q tag

theorem Grows.unacked (h : Grows s s') (hk : Unacked s k) : Unacked s' k :=
  fun r hr => hk r ((h.acks k r).mp hr)

theorem seen_congr {p p' : Pool.State} (h : t'.Same t) (hb : p'.bufs t.q t.tag = p.bufs t.q t.tag) :
    Store.seen p' t' res = Store.seen p t res := by
  rw [Store.seen, Store.seen, h.q, h.tag, h.iod, hb]

theorem Answered.keep (h : Answered s q tag res) (hg : Grows s s') (hs : Still s s' q tag) :
    Answered s' q tag res where
  answer := by
    obtain ⟨t, ht, rfl, rfl, hr⟩ := h.answer
    obtain ⟨t', ht', hsame⟩ := hg.tasks _ t ht
    rw [hs.last]
    refine ⟨t', ht', hsame.q, hsame.tag, ?_⟩
    rw [seen_congr hsame hs.bufs]
    exact hg.history hr
  unacked := by
    rw [hs.last]
    exact hg.unacked h.unacked

/-- Two commits that the driver has not been told of are not of the same request. -/
theorem Answered.inj {q' tag' : ℕ} {res' : Int32} (h : Answered s q tag res) (h' : Answered s q' tag' res')
    (hk : s.last q tag = s.last q' tag') : q = q' ∧ tag = tag' := by
  obtain ⟨t, ht, hq, htag, -⟩ := h.answer
  obtain ⟨t', ht', hq', htag', -⟩ := h'.answer
  rw [hk, ht'] at ht
  obtain rfl := Option.some.inj ht
  exact ⟨hq.symm.trans hq', htag.symm.trans htag'⟩

theorem Told.keep (h : Told s k t Q u) (hg : Grows s s') (hsame : t'.Same t)
    (hsq : Q.mem.ring.sq ⊆ Q'.mem.ring.sq)
    (hres : u.mayFill = true → (Q'.mem.ios t.tag).result = (Q.mem.ios t.tag).result)
    (hs : (u.mayFill = true ∨ ∃ e ∈ Q.mem.ring.sq, e.tag = t.tag) → Still s s' t.q t.tag) :
    Told s' k t' Q' u where
  held hm := by
    rw [hsame.q, hsame.tag, (hs (.inl hm)).last]
    exact ⟨(h.held hm).1, hg.unacked (h.held hm).2⟩
  marked hp := by
    have hm : u.mayFill = true := by rcases hp with hp | hp <;> simp [Queue.Task.mayFill, hp]
    rw [hsame.tag, hres hm, seen_congr hsame (hs (.inl hm)).bufs]
    exact hg.history (h.marked hp)
  passed hm := by
    rcases h.passed hm with ⟨r, hr⟩ | ⟨hlast, e, he, htag, hsome⟩
    · exact .inl ⟨r, (hg.acks k r).mpr hr⟩
    · right
      rw [hsame.q, hsame.tag, (hs (.inr ⟨e, he, htag⟩)).last]
      exact ⟨hlast, e, hsq he, htag, hsome⟩

theorem Paired.before (hp : Paired s) (h : Pair s' k t' i Q' u') (ht' : s'.store.pool.tasks[k]? = some t')
    (hlinks : s'.links = s.links) (hlen : s'.store.pool.tasks.length = s.store.pool.tasks.length) :
    ∃ t Q u, s.store.pool.tasks[k]? = some t ∧ t.q = t'.q ∧ Pair s k t i Q u := by
  obtain ⟨t, ht⟩ := exists_get hlen.symm ht'
  obtain ⟨j, Q, u, hpair⟩ := hp.pair k t ht
  have hlink := h.link
  rw [hlinks] at hlink
  obtain ⟨hq, rfl⟩ := Prod.mk.inj (Option.some.inj (hpair.link.symm.trans hlink))
  exact ⟨t, Q, u, ht, hq, hpair⟩

theorem encloses_step {b : Store.Act} {acks : List (Event Op Result)} {st' : Store.State τ}
    (h : Encloses acks st.history) (hs : Store.Step H st b st') (hb : b.delivers = false) :
    Encloses acks st'.history := by
  cases hs with
  | call => exact h
  | pool b p hb' hp =>
    have hnone : Encloses acks (st.history ++ []) := by
      rw [List.append_nil]
      exact h
    change Encloses acks (st.history ++ Store.events st.pool b)
    cases b with
    | deliver => cases hb
    | dispatch | dispatchSend | handle | handlerSend => exact hnone
    | task k =>
      rw [Store.events]
      cases ht : st.pool.tasks[k]? with
      | none => exact hnone
      | some t =>
        rw [Option.elim_some]
        split
        · exact h.perform _ _
        · exact h.perform _ _
        · exact hnone

theorem grows_step {b : Store.Act} {st' : Store.State τ} (hs : Store.Step H st b st') (hb : b.delivers = false) :
    st'.pool.tasks.length = st.pool.tasks.length ∧ (∀ (k : ℕ) (t : Pool.Task), st.pool.tasks[k]? = some t →
      ∃ t', st'.pool.tasks[k]? = some t' ∧ t'.Same t) ∧ st.history ⊆ st'.history := by
  have main : ∀ {b' : Pool.Act} {p : Pool.State}, Pool.Step st.pool b' p → b'.delivers = false →
      p.tasks.length = st.pool.tasks.length ∧ ∀ (k : ℕ) (t : Pool.Task), st.pool.tasks[k]? = some t →
        ∃ t', p.tasks[k]? = some t' ∧ t'.Same t := by
    intro b' p hst hd
    have hlen := hst.tasks_length hd
    refine ⟨hlen, ?_⟩
    intro k t ht
    obtain ⟨t', ht'⟩ := exists_get hlen ht
    obtain ⟨v, hv, hsame, -⟩ := hst.commits hd ht'
    obtain rfl : t = v := Option.some.inj (ht.symm.trans hv)
    exact ⟨t', ht', hsame⟩
  cases hs with
  | call j g p hg hp =>
    obtain ⟨hlen, htasks⟩ := main (Pool.step_cases hp) rfl
    exact ⟨hlen, htasks, List.Subset.refl _⟩
  | pool b p hb' hp =>
    obtain ⟨hlen, htasks⟩ := main (Pool.step_cases hp) hb
    exact ⟨hlen, htasks, List.subset_append_left _ _⟩

theorem Acked.store (ha : Acked s) (hp : Paired s) {b : Store.Act} (hs : Store.Step H s.store b st)
    (hb : b.delivers = false) (hbufs : st.pool.bufs = s.store.pool.bufs) : Acked { s with store := st } := by
  obtain ⟨hlen, htasks, hhist⟩ := grows_step hs hb
  have hg : Grows s { s with store := st } := ⟨htasks, hhist, fun _ _ => Iff.rfl⟩
  have hstill : ∀ q tag, Still s { s with store := st } q tag := by
    intro q tag
    exact ⟨rfl, by rw [hbufs]⟩
  constructor
  · exact encloses_step ha.encloses hs hb
  · intro q Q e res hQ he hr
    exact (ha.commands q Q e res hQ he hr).keep hg (hstill q e.tag)
  · intro k t' i Q' u' ht' hpair'
    obtain ⟨t, Q, u, ht, hq, hpair⟩ := hp.before hpair' ht' rfl hlen
    obtain ⟨v, hv, hsame⟩ := htasks k t ht
    obtain rfl : t' = v := Option.some.inj (ht'.symm.trans hv)
    have hQ := hpair'.queue
    rw [← hq] at hQ
    obtain rfl : Q = Q' := Option.some.inj (hpair.queue.symm.trans hQ)
    obtain rfl : u = u' := Option.some.inj (hpair.task.symm.trans hpair'.task)
    exact (ha.told k t i Q u ht hpair).keep hg hsame (List.Subset.refl _) (fun _ => rfl) fun _ => hstill _ _
  · exact ha.once
  · intro e he
    exact hlen.symm ▸ ha.bounded e he

theorem complete_of_mark {pc : Pool.TaskPc} (h : Together pc (.mark res)) : pc = .complete res := by
  cases pc with
  | complete => exact congrArg Pool.TaskPc.complete (Queue.TaskPc.mark.inj h).symm
  | copyOut | putMsg => rcases h with ⟨x, hx⟩ | hx <;> cases hx
  | _ => cases h

theorem mayFill_of_copyOut (h : Together .copyOut u.pc) : u.mayFill = true := by
  rcases h with ⟨x, hx⟩ | hx <;> simp [Queue.Task.mayFill, hx]

section

variable (hj : Joint H info v₀ size maxIoBufBytes s)

include hj

/-- One goroutine moves. As long as it has its tag, it may write what belongs to the tag. -/
theorem Acked.goroutine (ha : Acked s) (ht : s.store.pool.tasks[k]? = some t) (hpair : Pair s k t i Q u)
    (hg : Grows s s') (henc : Encloses s'.acks s'.store.history) (hacks : s'.acks = s.acks)
    (hlinks : s'.links = s.links) (hlen : s'.store.pool.tasks.length = s.store.pool.tasks.length)
    (hlast : s'.last = s.last) (hself : s'.store.pool.tasks[k]? = some t')
    (hqueues : s'.queues = s.queues.set t.q Q') (htasks : Q'.tasks = Q.tasks.set i u')
    (hbufs : ∀ r tag, (r = t.q → tag = t.tag → u.mayFill = false) →
      s'.store.pool.bufs r tag = s.store.pool.bufs r tag)
    (hres : ∀ tag, (tag = t.tag → u.mayFill = false) →
      (Q'.mem.ios tag).result = (Q.mem.ios tag).result)
    (hsq : Q.mem.ring.sq ⊆ Q'.mem.ring.sq)
    (hcmd : ∀ e ∈ Q'.mem.ring.sq, e ∈ Q.mem.ring.sq ∨
      ∀ res, e.cmd.result = some res → Answered s' t.q e.tag res)
    (hown : Told s' k t' Q' u') : Acked s' := by
  have htag := hpair.fits.tag
  have hreach := hj.queues t.q Q hpair.queue
  have hu := List.mem_of_getElem? hpair.task
  have hstill : ∀ r tag, (r = t.q → tag = t.tag → u.mayFill = false) → Still s s' r tag := by
    intro r tag h
    exact ⟨by rw [hlast], hbufs r tag h⟩
  have hquiet : ∀ e ∈ Q.mem.ring.sq, e.tag = t.tag → u.mayFill = false := by
    intro e he het
    by_contra hm
    rw [Bool.not_eq_false] at hm
    exact Queue.sq_apart hreach hu hm he (het.trans htag.symm)
  constructor
  · exact henc
  · intro r R e res hR he hr
    rw [hqueues] at hR
    rcases List.get_set_cases hR with ⟨rfl, rfl⟩ | ⟨hne, hR⟩
    · rcases hcmd e he with he | h
      · refine (ha.commands t.q Q e res hpair.queue he hr).keep hg (hstill _ _ ?_)
        exact fun _ het => hquiet e he het
      · exact h res hr
    · refine (ha.commands r R e res hR he hr).keep hg (hstill _ _ ?_)
      exact fun hq => absurd hq hne
  · intro j v' l R' w' hv' hpair'
    obtain ⟨v, R, w, hv, hq, hp⟩ := hj.paired.before hpair' hv' hlinks hlen
    by_cases hjk : j = k
    · subst hjk
      obtain rfl : t = v := Option.some.inj (ht.symm.trans hv)
      obtain rfl : t' = v' := Option.some.inj (hself.symm.trans hv')
      obtain ⟨-, rfl⟩ := Prod.mk.inj (Option.some.inj (hpair.link.symm.trans hp.link))
      have hR' := hpair'.queue
      rw [← hq, hqueues, List.getElem?_set_self (List.getElem?_eq_some_iff.mp hpair.queue).1] at hR'
      obtain rfl : Q' = R' := Option.some.inj hR'
      have hw' := hpair'.task
      rw [htasks, List.getElem?_set_self (List.getElem?_eq_some_iff.mp hpair.task).1] at hw'
      obtain rfl : u' = w' := Option.some.inj hw'
      exact hown
    · obtain ⟨x, hx, hsv⟩ := hg.tasks j v hv
      obtain rfl : v' = x := Option.some.inj (hv'.symm.trans hx)
      have hne := hj.paired.ne hp.link hpair.link hjk
      have hR' := hpair'.queue
      rw [← hq, hqueues] at hR'
      rcases List.get_set_cases hR' with ⟨hvq, rfl⟩ | ⟨hvq, hR'⟩
      · have hli : l ≠ i := by
          rintro rfl
          exact hne (by rw [hvq])
        have hR := hp.queue
        rw [hvq] at hR
        obtain rfl : Q = R := Option.some.inj (hpair.queue.symm.trans hR)
        have hw' := hpair'.task
        rw [htasks, List.getElem?_set_ne hli.symm] at hw'
        obtain rfl : w = w' := Option.some.inj (hp.task.symm.trans hw')
        have hapart : w.mayFill = true → v.tag = t.tag → u.mayFill = false := by
          intro hm hvt
          by_contra hn
          rw [Bool.not_eq_false] at hn
          exact Queue.tasks_apart hreach hpair.task hn hp.task hm hli
            (hp.fits.tag.trans (hvt.trans htag.symm))
        refine (ha.told j v l Q w hv hp).keep hg hsv hsq ?_ ?_
        · intro hm
          exact hres v.tag (hapart hm)
        · rintro (hm | ⟨e, he, het⟩)
          · exact hstill _ _ fun _ => hapart hm
          · exact hstill _ _ fun _ hvt => hquiet e he (het.trans hvt)
      · obtain rfl : R = R' := Option.some.inj (hp.queue.symm.trans hR')
        obtain rfl : w = w' := Option.some.inj (hp.task.symm.trans hpair'.task)
        refine (ha.told j v l R w hv hp).keep hg hsv (List.Subset.refl _) (fun _ => rfl) ?_
        intro _
        exact hstill _ _ fun h => absurd h hvq
  · rw [hacks]
    exact ha.once
  · intro e he
    rw [hacks] at he
    exact hlen.symm ▸ ha.bounded e he

theorem Acked.inside (ha : Acked s) (ht : s.store.pool.tasks[k]? = some t) (hx : s.links[k]? = some (q, i))
    (hQ : s.queues[q]? = some Q) (hu : Q.tasks[i]? = some u) (hc : u.pc.call.isSome = true)
    (h : Queue.step Q (.task i false) = some Q') : Acked { s with queues := s.queues.set q Q' } := by
  obtain ⟨q', u', ev, hst, hQ'⟩ := queue_task hu h
  obtain ⟨j, R, v, hpair⟩ := hj.paired.pair k t ht
  obtain ⟨rfl, rfl⟩ := Prod.mk.inj (Option.some.inj (hpair.link.symm.trans hx))
  obtain rfl : R = Q := Option.some.inj (hpair.queue.symm.trans hQ)
  obtain rfl : v = u := Option.some.inj (hpair.task.symm.trans hu)
  have hreach := hj.queues t.q R hQ
  have htag := hpair.fits.tag
  have htold := ha.told k t j R v ht hpair
  have hg : Grows s { s with queues := s.queues.set t.q Q' } :=
    ⟨fun l w hw => ⟨w, hw, .refl w⟩, List.Subset.refl _, fun _ _ => Iff.rfl⟩
  obtain ⟨hres, hsq⟩ := Queue.call_cases hreach hu hc (Queue.taskStep_cases hst)
  have htasks : Q'.tasks = R.tasks.set j u' := by rw [hQ']
  have hres' : ∀ tag, (Q'.mem.ios tag).result = (R.mem.ios tag).result := by
    rw [hQ']
    exact hres
  have move := ha.goroutine hj ht hpair hg ha.encloses rfl rfl rfl rfl ht rfl htasks (fun _ _ _ => rfl)
    fun tag _ => hres' tag
  rcases hsq with ⟨hsq, hm, hlock⟩ | ⟨hsq, hp, hm⟩
  · have hsq' : Q'.mem.ring.sq = R.mem.ring.sq := by
      rw [hQ']
      exact hsq
    apply move
    · rw [hsq']
      exact List.Subset.refl _
    · intro e he
      rw [hsq'] at he
      exact .inl he
    · constructor
      · rw [hm]
        exact htold.held
      · intro hp'
        have hu' : u'.mayFill = true := by rcases hp' with hp' | hp' <;> simp [Queue.Task.mayFill, hp']
        have hmark := htold.marked (.inl (hlock (hm ▸ hu')))
        rw [hres']
        exact hmark
      · rw [hm, hsq']
        exact htold.passed
  · have hmay : v.mayFill = true := by simp [Queue.Task.mayFill, hp]
    obtain ⟨hlast, hun⟩ := htold.held hmay
    have hlt := ((Queue.wf_reach hreach).tasks v (List.mem_of_getElem? hu)).tag
    have hnew : (Queue.prepSqe R.mem v.tag .commitAndFetchReq).tag = t.tag :=
      (Queue.prepSqe_tag _ _ hlt).trans htag
    have hsq' : Q'.mem.ring.sq = R.mem.ring.sq ++ [Queue.prepSqe R.mem v.tag .commitAndFetchReq] := by
      rw [hQ']
      exact hsq
    apply move
    · rw [hsq']
      exact List.subset_append_left _ _
    · intro e he
      rw [hsq'] at he
      rcases List.mem_append.mp he with he | he
      · exact .inl he
      · right
        intro res hr
        rw [List.mem_singleton.mp he] at hr ⊢
        obtain rfl : (R.mem.ios v.tag).result.toInt32 = res := Option.some.inj hr
        have hmark := htold.marked (.inr hp)
        rw [hnew]
        constructor
        · refine ⟨t, ?_, rfl, rfl, ?_⟩
          · rw [hlast]
            exact ht
          · rw [hlast, htag]
            exact hmark
        · rw [hlast]
          exact hun
    · constructor
      · intro hu'
        rw [hm] at hu'
        cases hu'
      · intro hp'
        rcases hp' with hp' | hp' <;> simp [Queue.Task.mayFill, hp'] at hm
      · intro _
        right
        refine ⟨hlast, _, ?_, hnew, rfl⟩
        rw [hsq']
        exact List.mem_append_right _ (List.mem_singleton_self _)

theorem Acked.both (ha : Acked s) (ht : s.store.pool.tasks[k]? = some t) (hx : s.links[k]? = some (q, i))
    (hQ : s.queues[q]? = some Q) (hu : Q.tasks[i]? = some u) (hc : u.pc.call = none)
    (h : Store.step H s.store (.pool (.task k)) = some st) (h' : Queue.step Q (.task i false) = some Q') :
    Acked { s with store := st, queues := s.queues.set q Q' } := by
  obtain ⟨q', u', ev, hst, hQ'⟩ := queue_task hu h'
  obtain ⟨j, R, v, hpair⟩ := hj.paired.pair k t ht
  obtain ⟨rfl, rfl⟩ := Prod.mk.inj (Option.some.inj (hpair.link.symm.trans hx))
  obtain rfl : R = Q := Option.some.inj (hpair.queue.symm.trans hQ)
  obtain rfl : v = u := Option.some.inj (hpair.task.symm.trans hu)
  have htold := ha.told k t j R v ht hpair
  have hstep := Store.step_cases h
  obtain ⟨hlen, htasks, hhist⟩ := grows_step hstep rfl
  obtain ⟨t', ht', hsame⟩ := htasks k t ht
  obtain ⟨hring, hm, hres, hmark⟩ :=
    Queue.outside_cases (hj.queues t.q R hQ) hu hc (Queue.taskStep_cases hst)
  have hg : Grows s { s with store := st, queues := s.queues.set t.q Q' } :=
    ⟨htasks, hhist, fun _ _ => Iff.rfl⟩
  have hsq : Q'.mem.ring.sq = R.mem.ring.sq := by
    rw [hQ']
    exact congrArg Queue.Ring.sq hring
  have hbufs : ∀ r tag, (r = t.q → tag = t.tag → v.mayFill = false) →
      st.pool.bufs r tag = s.store.pool.bufs r tag := by
    intro r tag hrt
    cases hstep with
    | pool _ p hb hp =>
      apply (Pool.step_cases hp).bufs rfl
      intro l w hl hw hpc hr htag
      cases hl
      obtain rfl : t = w := Option.some.inj (ht.symm.trans hw)
      have hmay := mayFill_of_copyOut (hpc ▸ hpair.fits.pc)
      rw [hrt hr htag] at hmay
      cases hmay
  apply ha.goroutine hj ht hpair hg (encloses_step ha.encloses hstep rfl) rfl rfl hlen rfl ht' rfl
  · rw [hQ']
  · exact hbufs
  · rw [hQ', ← hpair.fits.tag]
    exact hres
  · rw [hsq]
    exact List.Subset.refl _
  · intro e he
    rw [hsq] at he
    exact .inl he
  · constructor
    · rw [hm, hsame.q, hsame.tag]
      exact htold.held
    · intro hp
      obtain ⟨res, hvp, hr⟩ := hmark hp
      have hpc := complete_of_mark (hvp ▸ hpair.fits.pc)
      have hresult : (Q'.mem.ios t'.tag).result.toInt32 = res := by
        rw [hQ', hsame.tag, ← hpair.fits.tag]
        exact hr
      rw [hresult]
      cases hstep with
      | pool _ p hb hp =>
        have hbuf : p.bufs t.q t.tag = s.store.pool.bufs t.q t.tag := by
          apply (Pool.step_cases hp).bufs rfl
          intro l w hl hw hpw
          cases hl
          obtain rfl : t = w := Option.some.inj (ht.symm.trans hw)
          rw [hpc] at hpw
          cases hpw
        rw [seen_congr hsame hbuf]
        apply List.mem_append_right
        simp [Store.events, ht, hpc]
    · rw [hm, hsq, hsame.q, hsame.tag]
      exact htold.passed

theorem Acked.queue (ha : Acked s) {b : Queue.Act} (hb : solo b = true)
    (hn : ∀ n, b ≠ .submit n) (hQ : s.queues[q]? = some Q) (h : Queue.step Q b = some Q') :
    Acked { s with queues := s.queues.set q Q' } := by
  have hst := Queue.step_cases h
  have hapart := hst.apart (fun r he => by subst he; cases hb) fun i f he => by subst he; cases hb
  obtain ⟨hgrow, hnew⟩ := hst.commits (hj.queues q Q hQ) (fun i f he => by subst he; cases hb) hn
  have hg : Grows s { s with queues := s.queues.set q Q' } :=
    ⟨fun l w hw => ⟨w, hw, .refl w⟩, List.Subset.refl _, fun _ _ => Iff.rfl⟩
  have hstill : ∀ r tag, Still s { s with queues := s.queues.set q Q' } r tag := fun _ _ => ⟨rfl, rfl⟩
  constructor
  · exact ha.encloses
  · intro r R e res hR he hr
    rcases List.get_set_cases hR with ⟨rfl, rfl⟩ | ⟨-, hR⟩
    · rcases hnew e he with he | hnone
      · exact (ha.commands r Q e res hQ he hr).keep hg (hstill _ _)
      · rw [hnone] at hr
        cases hr
    · exact (ha.commands r R e res hR he hr).keep hg (hstill _ _)
  · intro k t i R' u' ht hpair'
    obtain ⟨v, R, u, hv, hq, hpair⟩ := hj.paired.before hpair' ht rfl rfl
    obtain rfl : t = v := Option.some.inj (ht.symm.trans hv)
    have htold := ha.told k t i R u ht hpair
    have hu' := hpair'.task
    rcases List.get_set_cases hpair'.queue with ⟨hqq, rfl⟩ | ⟨-, hR'⟩
    · have hR := hpair.queue
      rw [hqq] at hR
      obtain rfl : Q = R := Option.some.inj (hQ.symm.trans hR)
      rw [hapart.tasks] at hu'
      obtain rfl : u = u' := Option.some.inj (hpair.task.symm.trans hu')
      exact htold.keep hg (.refl t) hgrow.subset (fun _ => hapart.result _) fun _ => hstill _ _
    · obtain rfl : R = R' := Option.some.inj (hpair.queue.symm.trans hR')
      obtain rfl : u = u' := Option.some.inj (hpair.task.symm.trans hu')
      exact htold.keep hg (.refl t) (List.Subset.refl _) (fun _ => rfl) fun _ => hstill _ _
  · exact ha.once
  · exact ha.bounded

theorem Acked.taken (ha : Acked s) (hQ : s.queues[q]? = some Q) (he : e ∈ Q.mem.ring.sq) {x : ℕ × Result}
    (hx : s.taken q e = some x) :
    ∃ res, Answered s q e.tag res ∧ x.1 = s.last q e.tag ∧ .respond x.1 x.2 ∈ s.store.history := by
  obtain ⟨res, hr, hx⟩ := Option.bind_eq_some_iff.mp hx
  obtain ⟨t, ht, rfl⟩ := Option.map_eq_some_iff.mp hx
  have hans := ha.commands q Q e res hQ he hr
  have htag := (Queue.cmdTag_reach (hj.queues q Q hQ)).1 e he
  rw [htag] at ht ⊢
  obtain ⟨v, hv, -, -, hmem⟩ := hans.answer
  obtain rfl : t = v := Option.some.inj (ht.symm.trans hv)
  exact ⟨res, hans, rfl, hmem⟩

def State.told (s : State τ) (q : ℕ) (Q : Queue.State) (n : ℕ) : List (Event Op Result) :=
  s.acks ++ (s.committed q Q (.submit n)).map fun x => .respond x.1 x.2

theorem Acked.committed (ha : Acked s) {n : ℕ} (hQ : s.queues[q]? = some Q) {x : ℕ × Result}
    (hx : x ∈ s.committed q Q (.submit n)) : ∃ e ∈ Q.mem.ring.sq.take n,
      ∃ res, Answered s q e.tag res ∧ x.1 = s.last q e.tag ∧ .respond x.1 x.2 ∈ s.store.history := by
  obtain ⟨e, he, hx⟩ := List.mem_filterMap.mp hx
  exact ⟨e, he, ha.taken hj hQ (List.mem_of_mem_take he) hx⟩

theorem Acked.still_unacked (ha : Acked s) {n : ℕ} (hQ : s.queues[q]? = some Q)
    (hk : Unacked s k)
    (hne : ∀ e ∈ Q.mem.ring.sq.take n, ∀ res, Answered s q e.tag res → s.last q e.tag ≠ k) :
    ∀ r, .respond k r ∉ s.told q Q n := by
  intro r hr
  rcases List.mem_append.mp hr with hr | hr
  · exact hk r hr
  · obtain ⟨x, hx, he⟩ := List.mem_map.mp hr
    obtain ⟨e, hmem, res, hans, hlast, -⟩ := ha.committed hj hQ hx
    cases he
    exact hne e hmem res hans hlast.symm

theorem Acked.holder_unacked (ha : Acked s) {n : ℕ} (hQ : s.queues[q]? = some Q)
    {R : Queue.State} (ht : s.store.pool.tasks[k]? = some t) (hpair : Pair s k t i R u) (hm : u.mayFill = true) :
    ∀ r, .respond k r ∉ s.told q Q n := by
  apply ha.still_unacked hj hQ ((ha.told k t i R u ht hpair).held hm).2
  intro e he res hans hk
  obtain ⟨w, hw, hwq, hwtag, -⟩ := hans.answer
  rw [hk, ht] at hw
  obtain rfl := Option.some.inj hw
  have hR := hpair.queue
  rw [hwq] at hR
  obtain rfl : Q = R := Option.some.inj (hQ.symm.trans hR)
  apply Queue.sq_apart (hj.queues q Q hQ) (List.mem_of_getElem? hpair.task) hm (List.mem_of_mem_take he)
  rw [hpair.fits.tag, hwtag]

theorem Acked.passed_on (ha : Acked s) {n : ℕ} (hQ : s.queues[q]? = some Q)
    (ht : s.store.pool.tasks[k]? = some t) (hpair : Pair s k t i Q u) (hq : t.q = q) (hm : u.mayFill = false) :
    (∃ r, .respond k r ∈ s.told q Q n) ∨
      s.last t.q t.tag = k ∧ ∃ e ∈ Q.mem.ring.sq.drop n, e.tag = t.tag ∧ e.cmd.result.isSome = true := by
  rcases (ha.told k t i Q u ht hpair).passed hm with ⟨r, hr⟩ | ⟨hlast, e, he, htag, hsome⟩
  · exact .inl ⟨r, List.mem_append_left _ hr⟩
  · rw [← List.take_append_drop n Q.mem.ring.sq] at he
    rcases List.mem_append.mp he with he | he
    · obtain ⟨res, hr⟩ := Option.isSome_iff_exists.mp hsome
      have hcmd := (Queue.cmdTag_reach (hj.queues q Q hQ)).1 e (List.mem_of_mem_take he)
      have htaken : s.taken q e = some (k, Store.seen s.store.pool t res) := by
        rw [State.taken, hr, Option.bind_some, hcmd, htag, ← hq, hlast]
        simp only [ht, Option.map_some]
      left
      refine ⟨Store.seen s.store.pool t res, List.mem_append_right _ ?_⟩
      exact List.mem_map_of_mem (List.mem_filterMap.mpr ⟨e, he, htaken⟩)
    · exact .inr ⟨hlast, e, he, htag, hsome⟩

theorem Acked.submit (ha : Acked s) {n : ℕ} (hQ : s.queues[q]? = some Q)
    (h : Queue.step Q (.submit n) = some Q') :
    Acked { s with queues := s.queues.set q Q', acks := s.told q Q n } := by
  have hreach := hj.queues q Q hQ
  have hst := Queue.step_cases h
  have hapart := hst.apart (fun r he => by cases he) fun i f he => by cases he
  have hdrop : Q'.mem.ring.sq = Q.mem.ring.sq.drop n := by
    cases hst with
    | submitAll => exact (List.drop_length).symm
    | submitPart => rfl
  constructor
  · apply ha.encloses.responds
    intro x hx
    obtain ⟨e, -, res, -, -, hmem⟩ := ha.committed hj hQ hx
    exact hmem
  · intro r R e res hR he hr
    have main : ∀ R, s.queues[r]? = some R → e ∈ R.mem.ring.sq → (r = q → e ∈ Q.mem.ring.sq.drop n) →
        Answered { s with queues := s.queues.set q Q', acks := s.told q Q n } r e.tag res := by
      intro R hR he hleft
      have hans := ha.commands r R e res hR he hr
      refine ⟨hans.answer, ha.still_unacked hj hQ hans.unacked ?_⟩
      intro f hf res' hans' hk
      obtain ⟨hqr, htag⟩ := hans'.inj hans hk
      exact Queue.take_apart hreach hf (hleft hqr.symm) htag
    rcases List.get_set_cases hR with ⟨rfl, rfl⟩ | ⟨hne, hR⟩
    · rw [hdrop] at he
      exact main Q hQ (List.mem_of_mem_drop he) fun _ => he
    · exact main R hR he fun hrq => absurd hrq hne
  · intro k t i R' u' ht hpair'
    obtain ⟨v, R, u, hv, hq, hpair⟩ := hj.paired.before hpair' ht rfl rfl
    obtain rfl : t = v := Option.some.inj (ht.symm.trans hv)
    have htold := ha.told k t i R u ht hpair
    have hu' := hpair'.task
    have hun : u.mayFill = true → ∀ r, .respond k r ∉ s.told q Q n :=
      ha.holder_unacked hj hQ ht hpair
    rcases List.get_set_cases hpair'.queue with ⟨hqq, rfl⟩ | ⟨hqq, hR'⟩
    · have hR := hpair.queue
      rw [hqq] at hR
      obtain rfl : Q = R := Option.some.inj (hQ.symm.trans hR)
      rw [hapart.tasks] at hu'
      obtain rfl : u = u' := Option.some.inj (hpair.task.symm.trans hu')
      constructor
      · intro hm
        exact ⟨(htold.held hm).1, hun hm⟩
      · intro hp
        rw [hapart.result]
        exact htold.marked hp
      · intro hm
        rw [hdrop]
        exact ha.passed_on hj hQ ht hpair hqq hm
    · obtain rfl : R = R' := Option.some.inj (hpair.queue.symm.trans hR')
      obtain rfl : u = u' := Option.some.inj (hpair.task.symm.trans hu')
      constructor
      · intro hm
        exact ⟨(htold.held hm).1, hun hm⟩
      · exact htold.marked
      · intro hm
        rcases htold.passed hm with ⟨r, hr⟩ | hleft
        · exact .inl ⟨r, List.mem_append_left _ hr⟩
        · exact .inr hleft
  · apply Atomic.nodup_ends ha.once
    · have htags := Queue.sq_nodup hreach
      rw [List.Nodup, List.pairwise_map] at htags
      rw [List.Nodup, List.pairwise_map, State.committed, List.pairwise_filterMap]
      refine (htags.sublist (List.take_sublist n _)).imp_of_mem ?_
      intro e f he hf hne x hx y hy hxy
      obtain ⟨res, hans, hlast, -⟩ := ha.taken hj hQ (List.mem_of_mem_take he) hx
      obtain ⟨res', hans', hlast', -⟩ := ha.taken hj hQ (List.mem_of_mem_take hf) hy
      rw [hlast, hlast'] at hxy
      exact hne (hans.inj hans' hxy).2
    · intro x hx
      obtain ⟨e, -, res, hans, hlast, -⟩ := ha.committed hj hQ hx
      rw [hlast]
      exact hans.unacked
  · intro e he
    rcases List.mem_append.mp he with he | he
    · exact ha.bounded e he
    · obtain ⟨x, hx, rfl⟩ := List.mem_map.mp he
      obtain ⟨e, -, res, hans, hlast, -⟩ := ha.committed hj hQ hx
      obtain ⟨t, ht, -⟩ := hans.answer
      change x.1 < _
      rw [hlast]
      exact (List.getElem?_eq_some_iff.mp ht).1

theorem Acked.request (ha : Acked s) {buf : ℕ → UInt8} {tag rid o : ℕ} (hQ : s.queues[q]? = some Q)
    (hpc : Q.thread.pc = .onRequest tag rid) (h : Queue.step Q (.onRequest true) = some Q') :
    Acked (s.passed q tag Q Q' buf o i) := by
  obtain ⟨hfree, hclear⟩ := Queue.pending_apart (hj.queues q Q hQ) (by rw [hpc]; rfl : tag ∈ Q.thread.pc.pending)
  have hQ' : Q' = { Q.goto .fetchAdd with
      tasks := Q.tasks ++
        [⟨rid, tag, reqToLonghornCmdType (Q.mem.ioCmdBuf tag), false, .handling, [], 0⟩] } := by
    simp only [Queue.step, hpc, if_true] at h
    exact (Option.some.inj h).symm
  have hmem : Q'.mem = Q.mem := by
    rw [hQ']
    rfl
  have hlen : (s.passed q tag Q Q' buf o i).store.pool.tasks.length = s.store.pool.tasks.length + 1 :=
    List.length_append
  have hg : Grows s (s.passed q tag Q Q' buf o i) := by
    refine ⟨fun k t ht => ⟨t, ?_, .refl t⟩, List.subset_append_left _ _, ?_⟩
    · exact (List.getElem?_append_left (List.getElem?_eq_some_iff.mp ht).1).trans ht
    · intro k r
      simp [State.passed]
  have hstill : ∀ r tag', ¬ (r = q ∧ tag' = tag) → Still s (s.passed q tag Q Q' buf o i) r tag' := by
    intro r tag' hne
    constructor
    · exact Pool.update_tag fun hr ht => hne ⟨hr, ht⟩
    · exact Pool.update_tag fun hr ht => hne ⟨hr, ht⟩
  constructor
  · exact ha.encloses.invoke _ _
  · intro r R' e res hR' he hr
    have main : ∀ R, s.queues[r]? = some R → e ∈ R.mem.ring.sq →
        Answered (s.passed q tag Q Q' buf o i) r e.tag res := by
      intro R hR he
      refine (ha.commands r R e res hR he hr).keep hg (hstill r e.tag ?_)
      rintro ⟨rfl, htag⟩
      obtain rfl : Q = R := Option.some.inj (hQ.symm.trans hR)
      exact hclear e he htag
    rcases List.get_set_cases hR' with ⟨rfl, rfl⟩ | ⟨-, hR⟩
    · rw [hmem] at he
      exact main Q hQ he
    · exact main R' hR he
  · intro k t j R' u' ht hpair'
    rcases List.get_append_cases ht with ht | ⟨rfl, rfl⟩
    · obtain ⟨l, R, u, hpair⟩ := hj.paired.pair k t ht
      have hlink := hpair'.link
      rw [State.passed, List.getElem?_append_left (List.getElem?_eq_some_iff.mp hpair.link).1] at hlink
      obtain ⟨-, rfl⟩ := Prod.mk.inj (Option.some.inj (hpair.link.symm.trans hlink))
      have hbusy : u.mayFill = true ∨ (∃ e ∈ R.mem.ring.sq, e.tag = t.tag) → ¬ (t.q = q ∧ t.tag = tag) := by
        rintro hb ⟨rfl, rfl⟩
        obtain rfl : Q = R := Option.some.inj (hQ.symm.trans hpair.queue)
        rcases hb with hm | ⟨e, he, het⟩
        · exact hfree u (List.mem_of_getElem? hpair.task) hm hpair.fits.tag
        · exact hclear e he het
      have main : R'.mem = R.mem → R'.tasks[l]? = some u →
          Told (s.passed q tag Q Q' buf o i) k t R' u' := by
        intro hm hu
        obtain rfl : u = u' := Option.some.inj (hu.symm.trans hpair'.task)
        refine (ha.told k t l R u ht hpair).keep hg (.refl t) ?_ ?_ fun hb => hstill _ _ (hbusy hb)
        · rw [hm]
          exact List.Subset.refl _
        · intro _
          rw [hm]
      rcases List.get_set_cases hpair'.queue with ⟨hqq, rfl⟩ | ⟨-, hR'⟩
      · have hR := hpair.queue
        rw [hqq] at hR
        obtain rfl : Q = R := Option.some.inj (hQ.symm.trans hR)
        refine main hmem ?_
        rw [hQ']
        exact (List.getElem?_append_left (List.getElem?_eq_some_iff.mp hpair.task).1).trans hpair.task
      · obtain rfl : R = R' := Option.some.inj (hpair.queue.symm.trans hR')
        exact main rfl hpair.task
    · have hlink := hpair'.link
      rw [State.passed, ← hj.paired.length, List.getElem?_concat_length] at hlink
      obtain ⟨-, rfl⟩ := Prod.mk.inj (Option.some.inj hlink)
      obtain rfl : Q' = R' := by
        have hR' := hpair'.queue
        rw [State.passed, List.getElem?_set_self (List.getElem?_eq_some_iff.mp hQ).1] at hR'
        exact Option.some.inj hR'
      have hu := hpair'.task
      rw [hQ'] at hu
      obtain rfl := Option.some.inj (List.getElem?_concat_length.symm.trans hu)
      constructor
      · intro _
        refine ⟨?_, ?_⟩
        · simp [State.passed]
        · apply hg.unacked
          intro r hr
          exact absurd (ha.bounded _ hr) (lt_irrefl _)
      · simp
      · simp [Queue.Task.mayFill]
  · have hends : (s.passed q tag Q Q' buf o i).acks.filterMap Event.ends = s.acks.filterMap Event.ends := by
      simp [State.passed, Event.ends]
    rw [hends]
    exact ha.once
  · intro e he
    rw [hlen]
    rcases List.mem_append.mp he with he | he
    · exact Nat.lt_succ_of_lt (ha.bounded e he)
    · rw [List.mem_singleton.mp he]
      exact Nat.lt_succ_self _

theorem Acked.step (hH : H.Stores size.toInt I contents punch) (hI : I v₀) (hs : 0 ≤ size.toInt)
    (hb : maxIoBufBytes.toNat ≤ defBufSize) (ha : Acked s) (h : Step H s a s') : Acked s' := by
  cases h with
  | queue q b Q Q' hsolo hQ hst =>
    cases b with
    | submit n => exact ha.submit hj hQ hst
    | thread | spurious | waitCqe | reap | reapEnd =>
      have hq := ha.queue hj hsolo (fun _ he => by cases he) hQ hst
      simp only [State.committed, List.map_nil, List.append_nil]
      exact hq
    | onRequest | task => cases hsolo
  | request q buf i Q Q' tag rid o hQ hpc ho hst => exact ha.request hj hQ hpc hst
  | go b st haside hst =>
    have hstep := Store.step_cases hst
    apply ha.store hj.paired hstep
    · cases b <;> first | rfl | cases haside
    · cases hstep with
      | pool _ p _ hp =>
        funext r
        funext tag
        apply (Pool.step_cases hp).bufs
        · cases b <;> first | rfl | cases haside
        · intro k t he
          subst he
          cases haside
  | call j st hst =>
    have hstep := Store.step_cases hst
    apply ha.store hj.paired hstep rfl
    cases hstep with
    | call _ g p _ hp =>
      funext r
      funext tag
      apply (Pool.step_cases hp).bufs rfl
      intro k t he
      cases he
  | exchange k t st ht hw hst =>
    have hstep := Store.step_cases hst
    apply ha.store hj.paired hstep rfl
    cases hstep with
    | pool _ p _ hp =>
      funext r
      funext tag
      apply (Pool.step_cases hp).bufs rfl
      intro l v he hv hpc
      cases he
      obtain rfl : t = v := Option.some.inj (ht.symm.trans hv)
      rw [hpc] at hw
      cases hw
  | inside k t q i Q Q' u ht hx hQ hu hc hst => exact ha.inside hj ht hx hQ hu hc hst
  | both k t q i Q Q' u failed st ht hx hQ hu hw hc hf hst hst' =>
    obtain rfl := hj.sound hH hI hs hb ht hf hst
    exact ha.both hj ht hx hQ hu hc hst hst'

end

section

variable (hH : H.Stores size.toInt I contents punch) (hI : I v₀) (hs : 0 ≤ size.toInt)
  (hb : maxIoBufBytes.toNat ≤ defBufSize)

include hH hI hs hb

theorem acked_reach (h : (machine H info v₀).Reach (Within size maxIoBufBytes) s) : Acked s := by
  apply h.invariant
  · rintro t ⟨queues, store, rfl, ⟨iods, bufs, rfl⟩, hinit⟩
    constructor
    · exact Atomic.encloses_nil
    · intro q Q e res hQ he hr
      obtain ⟨buf, mem, m, hm, rfl⟩ := hinit q Q hQ
      rw [Queue.ublksrvQueueInit_results hm e he] at hr
      cases hr
    · intro k t i Q u ht
      cases ht
    · exact List.nodup_nil
    · intro e he
      cases he
  · intro t b t' hr ha hw hst
    exact ha.step (joint_reach hH hI hs hb hr) hH hI hs hb (step_cases hst)

end

end GoUblksrv.Service
