import GoUblksrv.Queue.Holders
import GoUblksrv.Service.Actors
import GoUblksrv.Store.Linear

/-!
The two models of a completion goroutine stay together, and so the whole server is a run of the
goroutines with their handler and, for each queue, a run of the queue. What was assumed of the
driver there holds here: a tag is delivered on only after the commit of its last request, and no
goroutine finds `Result == -1`.
-/

namespace GoUblksrv.Service

open Pool (sectors initParams)
open Store (IOHandler Disk Facts)

def Together : Pool.TaskPc → Queue.TaskPc → Prop
  | .sendRequest, u | .recvComplete, u | .check, u => u = .handling
  | .failComplete, u => u = .failMark
  | .copyOut, u => (∃ pc, u = .failCmd pc) ∨ u = .copyOut
  | .finalRes, u => u = .finalRes
  | .complete res, u => u = .mark res
  | .putMsg, u => (∃ pc, u = .cmd pc) ∨ u = .putMsg
  | .ended, u => u = .ended

structure Matches (t : Pool.Task) (Q : Queue.State) (u : Queue.Task) : Prop where
  tag : u.tag = t.tag
  opType : u.opType = t.opType
  pc : Together t.pc u.pc
  desc : t.commits = [] → Q.mem.ioCmdBuf t.tag = t.iod

variable {τ : Type*} {H : IOHandler τ} {info : Queue.DevInfo} {s s' : State τ} {a : Act} {v₀ : τ}
  {size : Int64} {I : τ → Prop} {contents : τ → Disk} {punch : Disk → ℕ → ℕ → Disk}
  {maxIoBufBytes : UInt32} {t t' : Pool.Task} {Q Q' : Queue.State} {u u' : Queue.Task} {k q i : ℕ}

structure Pair (s : State τ) (k : ℕ) (t : Pool.Task) (i : ℕ) (Q : Queue.State) (u : Queue.Task) : Prop where
  link : s.links[k]? = some (t.q, i)
  queue : s.queues[t.q]? = some Q
  task : Q.tasks[i]? = some u
  fits : Matches t Q u

structure Paired (s : State τ) : Prop where
  pair : ∀ (k : ℕ) (t : Pool.Task), s.store.pool.tasks[k]? = some t → ∃ i Q u, Pair s k t i Q u
  total : ∀ (q : ℕ) (Q : Queue.State) (i : ℕ) (u : Queue.Task), s.queues[q]? = some Q →
    Q.tasks[i]? = some u → ∃ k : ℕ, s.links[k]? = some (q, i)
  length : s.links.length = s.store.pool.tasks.length
  nodup : s.links.Nodup

theorem exists_get {α : Type*} {l l' : List α} (h : l'.length = l.length) {k : ℕ} {x : α} (hx : l[k]? = some x) :
    ∃ y, l'[k]? = some y := by
  obtain ⟨hk, -⟩ := List.getElem?_eq_some_iff.mp hx
  exact ⟨l'.get ⟨k, h ▸ hk⟩, List.getElem?_eq_getElem _⟩

theorem mayFill_of_uncommitted (hr : t.Reported) (hc : t.commits = []) (hp : Together t.pc u.pc) :
    u.mayFill = true := by
  have hres : t.results = [] := by rw [Pool.Task.results, hc, List.map_nil]
  have hnot : ¬ if t.failed then ∃ res, t.results = [eio, res] else t.results = [t.finalRes] := by
    rw [hres]
    split_ifs
    · rintro ⟨res, he⟩
      cases he
    · intro he
      cases he
  rw [Pool.Task.Reported] at hr
  cases hpc : t.pc with
  | putMsg | ended =>
    rw [hpc] at hr
    exact absurd hr hnot
  | copyOut =>
    rw [hpc] at hp
    obtain ⟨pc, hu⟩ | hu := hp <;> simp [Queue.Task.mayFill, hu]
  | sendRequest | recvComplete | check | failComplete | finalRes | complete =>
    rw [hpc] at hp
    simp only [Together] at hp
    simp [Queue.Task.mayFill, hp]

theorem Paired.move (hp : Paired s) (hlinks : s'.links = s.links)
    (hlen : s'.store.pool.tasks.length = s.store.pool.tasks.length)
    (hqueues : ∀ q : ℕ,
      s'.queues[q]?.map (fun Q => Q.tasks.length) = s.queues[q]?.map fun Q => Q.tasks.length)
    (hpair : ∀ (k : ℕ) (t : Pool.Task) (i : ℕ) (Q : Queue.State) (u : Queue.Task),
      s.store.pool.tasks[k]? = some t → Pair s k t i Q u →
      ∀ (t' : Pool.Task) (Q' : Queue.State) (u' : Queue.Task), s'.store.pool.tasks[k]? = some t' →
        s'.queues[t.q]? = some Q' → Q'.tasks[i]? = some u' → t'.q = t.q ∧ Matches t' Q' u') :
    Paired s' where
  pair k t' ht' := by
    obtain ⟨t, ht⟩ := exists_get hlen.symm ht'
    obtain ⟨i, Q, u, h⟩ := hp.pair k t ht
    have hQ := hqueues t.q
    rw [h.queue, Option.map_some] at hQ
    obtain ⟨Q', hQ', hsame⟩ := Option.map_eq_some_iff.mp hQ
    obtain ⟨u', hu'⟩ := exists_get hsame h.task
    obtain ⟨hq, hm⟩ := hpair k t i Q u ht h t' Q' u' ht' hQ' hu'
    refine ⟨i, Q', u', ?_, ?_, hu', hm⟩
    · rw [hlinks, hq]
      exact h.link
    · rw [hq]
      exact hQ'
  total q Q' i u' hQ' hu' := by
    have hQ := hqueues q
    rw [hQ', Option.map_some] at hQ
    obtain ⟨Q, hQ, hsame⟩ := Option.map_eq_some_iff.mp hQ.symm
    obtain ⟨u, hu⟩ := exists_get hsame hu'
    rw [hlinks]
    exact hp.total q Q i u hQ hu
  length := by rw [hlinks, hlen, hp.length]
  nodup := hlinks ▸ hp.nodup

theorem Paired.ne (hp : Paired s) {j k : ℕ} {x y : ℕ × ℕ} (hj : s.links[j]? = some x)
    (hk : s.links[k]? = some y) (hne : j ≠ k) : x ≠ y := by
  rintro rfl
  obtain ⟨hlt, -⟩ := List.getElem?_eq_some_iff.mp hj
  exact hne ((List.getElem?_inj hlt hp.nodup).mp (hj.trans hk.symm))

theorem lengths_set {l : List Queue.State} (hQ : l[q]? = some Q) (hlen : Q'.tasks.length = Q.tasks.length) (r : ℕ) :
    (l.set q Q')[r]?.map (fun Q => Q.tasks.length) = l[r]?.map fun Q => Q.tasks.length := by
  by_cases hr : r = q
  · rw [hr, List.getElem?_set_self (List.getElem?_eq_some_iff.mp hQ).1, hQ, Option.map_some, Option.map_some, hlen]
  · rw [List.getElem?_set_ne (Ne.symm hr)]

theorem Matches.next (h : Matches t Q u) (hsame : t'.Same t) (hc : t'.commits = [] → t.commits = [])
    (htag : u'.tag = u.tag) (hop : u'.opType = u.opType)
    (hd : t.commits = [] → Q'.mem.ioCmdBuf t.tag = Q.mem.ioCmdBuf t.tag) (hpc : Together t'.pc u'.pc) :
    Matches t' Q' u' where
  tag := htag.trans (h.tag.trans hsame.tag.symm)
  opType := hop.trans (h.opType.trans hsame.opType.symm)
  pc := hpc
  desc hn := by
    rw [hsame.tag, hsame.iod, hd (hc hn)]
    exact h.desc (hc hn)

theorem Matches.stay (h : Matches t Q u) (hd : t.commits = [] → Q'.mem.ioCmdBuf t.tag = Q.mem.ioCmdBuf t.tag) :
    Matches t Q' u :=
  h.next (.refl t) id rfl rfl hd h.pc

theorem Paired.store (hp : Paired s) {st : Store.State τ}
    (hlen : st.pool.tasks.length = s.store.pool.tasks.length)
    (hkeep : ∀ (k : ℕ) (t t' : Pool.Task), s.store.pool.tasks[k]? = some t → st.pool.tasks[k]? = some t' →
      t'.Same t ∧ (t'.commits = [] → t.commits = []) ∧ ∀ pc, Together t.pc pc → Together t'.pc pc) :
    Paired { s with store := st } := by
  refine hp.move rfl hlen (fun _ => rfl) ?_
  intro k t i Q u ht hpair t' Q' u' ht' hQ' hu'
  obtain rfl : Q = Q' := Option.some.inj (hpair.queue.symm.trans hQ')
  obtain rfl : u = u' := Option.some.inj (hpair.task.symm.trans hu')
  obtain ⟨hsame, hc, hpc⟩ := hkeep k t t' ht ht'
  exact ⟨hsame.q, hpair.fits.next hsame hc rfl rfl (fun _ => rfl) (hpc _ hpair.fits.pc)⟩

theorem Paired.queue (hp : Paired s) {acks : List (Atomic.Event Store.Op Store.Result)}
    (hQ : s.queues[q]? = some Q) (htasks : Q'.tasks = Q.tasks)
    (hd : ∀ (k : ℕ) (t : Pool.Task) (i : ℕ) (u : Queue.Task), s.store.pool.tasks[k]? = some t →
      Pair s k t i Q u → t.commits = [] → Q'.mem.ioCmdBuf t.tag = Q.mem.ioCmdBuf t.tag) :
    Paired { s with queues := s.queues.set q Q', acks := acks } := by
  refine hp.move rfl rfl (lengths_set hQ (by rw [htasks])) ?_
  intro k t i R u ht hpair t' R' u' ht' hR' hu'
  obtain rfl : t = t' := Option.some.inj (ht.symm.trans ht')
  refine ⟨rfl, ?_⟩
  rcases List.get_set_cases hR' with ⟨rfl, rfl⟩ | ⟨-, hR'⟩
  · obtain rfl : Q = R := Option.some.inj (hQ.symm.trans hpair.queue)
    rw [htasks] at hu'
    obtain rfl : u = u' := Option.some.inj (hpair.task.symm.trans hu')
    exact hpair.fits.stay (hd k t i u ht hpair)
  · obtain rfl : R = R' := Option.some.inj (hpair.queue.symm.trans hR')
    obtain rfl : u = u' := Option.some.inj (hpair.task.symm.trans hu')
    exact hpair.fits

/-- One goroutine moves, in one model or in both. -/
theorem Paired.goroutine (hp : Paired s) (hpair : Pair s k t i Q u) (hlinks : s'.links = s.links)
    (hlen : s'.store.pool.tasks.length = s.store.pool.tasks.length)
    (hself : s'.store.pool.tasks[k]? = some t')
    (hother : ∀ j ≠ k, s'.store.pool.tasks[j]? = s.store.pool.tasks[j]?)
    (hqueues : s'.queues = s.queues.set t.q Q') (htasks : Q'.tasks = Q.tasks.set i u')
    (hd : Q'.mem.ioCmdBuf = Q.mem.ioCmdBuf) (hq : t'.q = t.q) (hm : Matches t' Q' u') : Paired s' := by
  have hlenQ : Q'.tasks.length = Q.tasks.length := by rw [htasks, List.length_set]
  apply hp.move hlinks hlen
  · intro r
    rw [hqueues]
    exact lengths_set hpair.queue hlenQ r
  intro j tj ij R v htj hj tj' R' v' htj' hR' hv'
  by_cases hjk : j = k
  · subst hjk
    obtain rfl : t' = tj' := Option.some.inj (hself.symm.trans htj')
    obtain ⟨hqj, rfl⟩ := Prod.mk.inj (Option.some.inj (hpair.link.symm.trans hj.link))
    rw [← hqj, hqueues, List.getElem?_set_self (List.getElem?_eq_some_iff.mp hpair.queue).1] at hR'
    obtain rfl : Q' = R' := Option.some.inj hR'
    rw [htasks, List.getElem?_set_self (List.getElem?_eq_some_iff.mp hpair.task).1] at hv'
    obtain rfl : u' = v' := Option.some.inj hv'
    exact ⟨hq.trans hqj, hm⟩
  · rw [hother j hjk, htj] at htj'
    obtain rfl : tj = tj' := Option.some.inj htj'
    refine ⟨rfl, ?_⟩
    rw [hqueues] at hR'
    rcases List.get_set_cases hR' with ⟨hqj, rfl⟩ | ⟨-, hR'⟩
    · have hqueue := hj.queue
      rw [hqj] at hqueue
      obtain rfl : Q = R := Option.some.inj (hpair.queue.symm.trans hqueue)
      have hne := hp.ne hj.link hpair.link hjk
      rw [hqj] at hne
      have hij : ij ≠ i := fun he => hne (by rw [he])
      rw [htasks, List.getElem?_set_ne hij.symm] at hv'
      obtain rfl : v = v' := Option.some.inj (hj.task.symm.trans hv')
      exact hj.fits.stay fun _ => by rw [hd]
    · obtain rfl : R = R' := Option.some.inj (hj.queue.symm.trans hR')
      obtain rfl : v = v' := Option.some.inj (hj.task.symm.trans hv')
      exact hj.fits

theorem Paired.request (hp : Paired s) {buf : ℕ → UInt8} {tag rid o : ℕ} (hQ : s.queues[q]? = some Q)
    (hQ' : Q' = { Q.goto .fetchAdd with
      tasks := Q.tasks ++
        [⟨rid, tag, reqToLonghornCmdType (Q.mem.ioCmdBuf tag), false, .handling, [], 0⟩] }) :
    Paired (s.passed q tag Q Q' buf o i) := by
  have hlt := (List.getElem?_eq_some_iff.mp hQ).1
  have hQs : (s.queues.set q Q')[q]? = some Q' := List.getElem?_set_self hlt
  have hgrow : ∀ (r j : ℕ) (R : Queue.State) (v : Queue.Task), s.queues[r]? = some R → R.tasks[j]? = some v →
      ∃ R', (s.queues.set q Q')[r]? = some R' ∧ R'.tasks[j]? = some v ∧ R'.mem.ioCmdBuf = R.mem.ioCmdBuf := by
    intro r j R v hR hv
    by_cases hr : r = q
    · subst hr
      obtain rfl : Q = R := Option.some.inj (hQ.symm.trans hR)
      refine ⟨Q', hQs, ?_, ?_⟩
      · rw [hQ']
        exact List.getElem?_append_left (List.getElem?_eq_some_iff.mp hv).1 |>.trans hv
      · rw [hQ']
        rfl
    · exact ⟨R, (List.getElem?_set_ne (Ne.symm hr)).trans hR, hv, rfl⟩
  have hlen : (s.passed q tag Q Q' buf o i).store.pool.tasks.length = s.store.pool.tasks.length + 1 :=
    List.length_append
  constructor
  · intro k t ht
    rcases List.get_append_cases ht with ht | ⟨hk, rfl⟩
    · obtain ⟨j, R, v, h⟩ := hp.pair k t ht
      obtain ⟨R', hR', hv, hd⟩ := hgrow _ j R v h.queue h.task
      refine ⟨j, R', v, ?_, hR', hv, h.fits.stay fun _ => by rw [hd]⟩
      exact (List.getElem?_append_left (List.getElem?_eq_some_iff.mp h.link).1).trans h.link
    · refine ⟨Q.tasks.length, Q',
        ⟨rid, tag, reqToLonghornCmdType (Q.mem.ioCmdBuf tag), false, .handling, [], 0⟩, ?_, hQs, ?_, ?_⟩
      · rw [hk, ← hp.length]
        exact List.getElem?_concat_length
      · rw [hQ']
        exact List.getElem?_concat_length
      · refine ⟨rfl, rfl, rfl, fun _ => ?_⟩
        rw [hQ']
        rfl
  · intro r R' j v hR' hv
    rcases List.get_set_cases hR' with ⟨rfl, rfl⟩ | ⟨-, hR⟩
    · rw [hQ'] at hv
      rcases List.get_append_cases hv with hv | ⟨rfl, -⟩
      · obtain ⟨k, hk⟩ := hp.total r Q j v hQ hv
        exact ⟨k, (List.getElem?_append_left (List.getElem?_eq_some_iff.mp hk).1).trans hk⟩
      · exact ⟨s.links.length, List.getElem?_concat_length⟩
    · obtain ⟨k, hk⟩ := hp.total r R' j v hR hv
      exact ⟨k, (List.getElem?_append_left (List.getElem?_eq_some_iff.mp hk).1).trans hk⟩
  · rw [hlen, ← hp.length]
    exact List.length_append
  · change (s.links ++ [(q, Q.tasks.length)]).Nodup
    rw [List.nodup_append]
    refine ⟨hp.nodup, List.nodup_singleton _, ?_⟩
    rintro x hx y hy rfl
    rw [List.mem_singleton] at hy
    obtain ⟨k, hk⟩ := List.mem_iff_getElem?.mp hx
    have hklt : k < s.store.pool.tasks.length := hp.length ▸ (List.getElem?_eq_some_iff.mp hk).1
    obtain ⟨j, R, v, h⟩ := hp.pair k _ (List.getElem?_eq_getElem hklt)
    obtain ⟨hq, hj⟩ := Prod.mk.inj ((Option.some.inj (h.link.symm.trans hk)).trans hy)
    have hR := h.queue
    rw [hq] at hR
    obtain rfl : Q = R := Option.some.inj (hQ.symm.trans hR)
    have hjlt := (List.getElem?_eq_some_iff.mp h.task).1
    omega

/-- What the whole server is for each of the two models. -/
structure Joint (H : IOHandler τ) (info : Queue.DevInfo) (v₀ : τ) (size : Int64) (maxIoBufBytes : UInt32)
    (s : State τ) : Prop where
  store : (Store.machine H v₀).Reach (Store.Within size maxIoBufBytes) s.store
  queues : ∀ (q : ℕ) (Q : Queue.State), s.queues[q]? = some Q → (Queue.machine info).Reach Queue.NoFailure Q
  asked : ∀ (q : ℕ) (Q : Queue.State), s.queues[q]? = some Q → ∀ tag rid,
    Q.thread.pc = .onRequest tag rid → (initParams maxIoBufBytes (sectors size)).admits (Q.mem.ioCmdBuf tag) = true
  paired : Paired s

section

variable (hH : H.Stores size.toInt I contents punch) (hI : I v₀) (hs : 0 ≤ size.toInt)
  (hb : maxIoBufBytes.toNat ≤ defBufSize)

include hH hI hs hb

theorem facts_of_reach {st : Store.State τ} (h : (Store.machine H v₀).Reach (Store.Within size maxIoBufBytes) st) :
    Facts size st.pool :=
  Store.facts_reach hs hb (Store.pool_reach hH hI hs hb h).2

variable (hj : Joint H info v₀ size maxIoBufBytes s)

include hj

theorem Joint.mayFill (ht : s.store.pool.tasks[k]? = some t) (hc : t.commits = []) (hp : Pair s k t i Q u) :
    u.mayFill = true := by
  have hf := facts_of_reach hH hI hs hb hj.store
  exact mayFill_of_uncommitted (hf.report t (List.mem_of_getElem? ht)).reported hc hp.fits.pc

theorem Joint.tagFree {tag rid : ℕ} (hQ : s.queues[q]? = some Q) (hpc : Q.thread.pc = .onRequest tag rid) :
    s.store.pool.tagFree q tag = true := by
  rw [Pool.State.tagFree, Option.isNone_iff_eq_none, Option.eq_none_iff_forall_ne_some]
  intro k hk
  have hpool := (Store.pool_reach hH hI hs hb hj.store).2
  obtain ⟨t, ht, rfl, rfl, hc⟩ := (Pool.flight_reach hpool).current q tag k hk
  obtain ⟨i, R, u, hp⟩ := hj.paired.pair k t ht
  obtain rfl : Q = R := Option.some.inj (hQ.symm.trans hp.queue)
  have hm := hj.mayFill hH hI hs hb ht hc hp
  have hpend : t.tag ∈ Q.thread.pc.pending := by
    rw [hpc]
    rfl
  exact (Queue.pending_apart (hj.queues _ Q hQ) hpend).1 u (List.mem_of_getElem? hp.task) hm hp.fits.tag

end

end GoUblksrv.Service
