import GoUblksrv.Queue.Capacity
import GoUblksrv.Queue.Protocol

namespace GoUblksrv.Queue

open Ownership

variable {info : DevInfo} {C : State → Act → Prop} {s s' : State} {a : Act} {o : Ownership}

inductive Place
  | command
  | held (rid : ℕ) (marked : Bool)
  | delivered (rid : ℕ)
  | getData
  deriving DecidableEq, Repr

/-- What the phase and the flag bits of a tag are at each place. -/
def Place.Good : Place → Phase → IoFlags → Prop
  | .command, ph, f => ph = .driver ∧ f.needGetData = false
  | .held rid marked, ph, f => ph = .request rid ∧ f.needGetData = false ∧
      (marked = true → f.needCommitRqComp = true ∧ f.ioFree = true)
  | .delivered rid, ph, f => ph = .request rid ∧ f.needGetData = false
  | .getData, ph, f => ph = .idle ∧ neededOp f = some .needGetData

def Task.marked (t : Task) : Bool :=
  match t.pc with
  | .failCmd _ | .cmd _ => true
  | _ => false

def Task.place (t : Task) : Place := .held t.rid t.marked

def ThreadPc.place : ThreadPc → Option (ℕ × Place)
  | .onRequest tag rid => some (tag, .delivered rid)
  | .getData tag .lock => some (tag, .getData)
  | .getData tag .fill => some (tag, .getData)
  | _ => none

def State.flags (s : State) (tag : ℕ) : IoFlags := (s.mem.ios tag).flags

structure Linked (s : State) (o : Ownership) : Prop where
  served : o.served = s.served
  sq : ∀ c ∈ s.mem.ring.sq, Place.command.Good (o.phase c.tag) (s.flags c.tag)
  driver : ∀ c ∈ s.driver, Place.command.Good (o.phase c.tag) (s.flags c.tag)
  tasks : ∀ t ∈ s.tasks, t.holds = true → t.place.Good (o.phase t.tag) (s.flags t.tag)
  thread : ∀ x ∈ s.thread.pc.place, x.2.Good (o.phase x.1) (s.flags x.1)

/-- No command, no goroutine and not the queue thread has the tag. -/
structure Absent (s : State) (tag : ℕ) : Prop where
  sq : ∀ c ∈ s.mem.ring.sq, c.tag ≠ tag
  driver : ∀ c ∈ s.driver, c.tag ≠ tag
  tasks : ∀ t ∈ s.tasks, t.holds = true → t.tag ≠ tag
  thread : tag ∉ s.thread.pc.pending

theorem absent_of_tokens {tag : ℕ} (h : tokens (· == tag) s = 0) : Absent s tag := by
  simp only [tokens, Nat.add_eq_zero_iff, List.countP_eq_zero, beq_iff_eq, Bool.and_eq_true,
    not_and] at h
  obtain ⟨⟨⟨hsq, hd⟩, ht⟩, hp⟩ := h
  refine ⟨hsq, hd, ht, ?_⟩
  intro hm
  rw [Option.mem_def] at hm
  simp [hm] at hp

theorem place_pending {pc : ThreadPc} {x : ℕ × Place} (h : x ∈ pc.place) : x.1 ∈ pc.pending := by
  cases pc with
  | onRequest tag rid => cases h; rfl
  | getData tag pc => cases pc <;> cases h <;> rfl
  | _ => cases h

theorem Linked.move {o' : Ownership} (h : Linked s o) (tag : ℕ) (hs : o'.served = s'.served)
    (ho : ∀ i ≠ tag, o'.phase i = o.phase i) (hf : ∀ i ≠ tag, s'.flags i = s.flags i)
    (hsq : ∀ c ∈ s'.mem.ring.sq, c.tag ≠ tag ∧ c ∈ s.mem.ring.sq ∨
      c.tag = tag ∧ Place.command.Good (o'.phase tag) (s'.flags tag))
    (hd : ∀ c ∈ s'.driver, c.tag ≠ tag ∧ (c ∈ s.mem.ring.sq ∨ c ∈ s.driver) ∨
      c.tag = tag ∧ Place.command.Good (o'.phase tag) (s'.flags tag))
    (ht : ∀ t ∈ s'.tasks, t.holds = true → t.tag ≠ tag ∧ t ∈ s.tasks ∨
      t.tag = tag ∧ t.place.Good (o'.phase tag) (s'.flags tag))
    (hp : ∀ x ∈ s'.thread.pc.place, x.1 ≠ tag ∧ x ∈ s.thread.pc.place ∨
      x.1 = tag ∧ x.2.Good (o'.phase tag) (s'.flags tag)) : Linked s' o' := by
  refine ⟨hs, ?_, ?_, ?_, ?_⟩
  · intro c hc
    rcases hsq c hc with ⟨hne, hm⟩ | ⟨rfl, hg⟩
    · rw [ho _ hne, hf _ hne]
      exact h.sq c hm
    · exact hg
  · intro c hc
    rcases hd c hc with ⟨hne, hm⟩ | ⟨rfl, hg⟩
    · rw [ho _ hne, hf _ hne]
      exact hm.elim (h.sq c) (h.driver c)
    · exact hg
  · intro t hm hh
    rcases ht t hm hh with ⟨hne, hm⟩ | ⟨rfl, hg⟩
    · rw [ho _ hne, hf _ hne]
      exact h.tasks t hm hh
    · exact hg
  · intro x hx
    rcases hp x hx with ⟨hne, hm⟩ | ⟨rfl, hg⟩
    · rw [ho _ hne, hf _ hne]
      exact h.thread x hm
    · exact hg

section

variable {i : ℕ} {c : Sqe} {t t' : Task} {tag : ℕ}

theorem absent_taken (h : tokens (· == c.tag) s ≤ 1) (hc : s.driver[i]? = some c) :
    Absent (s.taken i) c.tag := by
  apply absent_of_tokens
  have hd := List.countP_eraseIdx_of_get (p := fun e : Sqe => e.tag == c.tag) hc
  simp only [beq_self_eq_true, Bool.toNat_true] at hd
  simp only [tokens, State.taken] at h ⊢
  omega

theorem absent_goto (pc : ThreadPc) (h : tokens (· == tag) s ≤ 1) (hp : tag ∈ s.thread.pc.pending)
    (hn : pc.pending = none) : Absent (s.goto pc) tag := by
  apply absent_of_tokens
  rw [Option.mem_def] at hp
  simp only [tokens, hp, Option.any_some, beq_self_eq_true, Bool.toNat_true] at h
  simp only [tokens, State.goto, hn, Option.any_none, Bool.toNat_false]
  omega

theorem absent_task (h : tokens (· == t.tag) s ≤ 1) (hi : s.tasks[i]? = some t) (hh : t.holds = true) :
    Absent { s with tasks := s.tasks.eraseIdx i } t.tag := by
  apply absent_of_tokens
  have hd := List.countP_eraseIdx_of_get (p := fun u : Task => u.holds && u.tag == t.tag) hi
  simp only [hh, beq_self_eq_true, Bool.and_self, Bool.toNat_true] at hd
  simp only [tokens] at h ⊢
  omega

end

theorem Linked.quiet (h : Linked s o) (hs : s'.served = s.served)
    (hf : ∀ tag, s'.flags tag = s.flags tag) (hsq : ∀ c ∈ s'.mem.ring.sq, c ∈ s.mem.ring.sq)
    (hd : ∀ c ∈ s'.driver, c ∈ s.mem.ring.sq ∨ c ∈ s.driver)
    (ht : ∀ t ∈ s'.tasks, t.holds = true →
      ∃ u ∈ s.tasks, u.holds = true ∧ u.tag = t.tag ∧ u.place = t.place)
    (hp : ∀ x ∈ s'.thread.pc.place, x ∈ s.thread.pc.place) : Linked s' o := by
  refine ⟨h.served.trans hs.symm, ?_, ?_, ?_, ?_⟩
  · intro c hc
    rw [hf]
    exact h.sq c (hsq c hc)
  · intro c hc
    rw [hf]
    exact (hd c hc).elim (h.sq c) (h.driver c)
  · intro t hm hh
    obtain ⟨u, hu, huh, htag, hplace⟩ := ht t hm hh
    rw [hf, ← htag, ← hplace]
    exact h.tasks u hu huh
  · intro x hx
    rw [hf]
    exact h.thread x (hp x hx)

theorem CallStep.quiet {q q' : Memory} {tag : ℕ} {pc pc' : IoCmdPc} (h : CallStep q tag pc q' pc')
    (hn : queuedOp q tag pc = none) : q'.ring.sq = q.ring.sq ∧ q'.ios = q.ios := by
  cases h with
  | fill op hop hr => simp [queuedOp_fill hop hr] at hn
  | _ => exact ⟨rfl, rfl⟩

theorem CallStep.queued {q q' : Memory} {tag : ℕ} {pc pc' : IoCmdPc} {op : IoCmdOp}
    (h : CallStep q tag pc q' pc') (hn : queuedOp q tag pc = some op) :
    pc = .fill ∧ neededOp (q.ios tag).flags = some op ∧ q' = filled q tag op ∧ pc' = .sub := by
  cases h with
  | fill op' hop hr =>
    obtain rfl : op' = op := by simpa [queuedOp_fill hop hr] using hn
    exact ⟨rfl, hop, rfl, rfl⟩
  | noWork hop => simp [queuedOp_noWork hop] at hn
  | noSqe op' hop hr => simp [queuedOp_noSqe hr] at hn
  | _ => simp [queuedOp] at hn

section

variable {i : ℕ} {t t' : Task} {q' : Memory} {ev : List Event}

def State.taskDone (s : State) (i : ℕ) (q' : Memory) (t' : Task) (ev : List Event) : State :=
  { s with mem := q', tasks := s.tasks.set i t', log := s.log ++ ev }

theorem Linked.task_quiet (hl : Linked s o) (hi : s.tasks[i]? = some t)
    (hq : q'.ring.sq = s.mem.ring.sq) (hf : q'.ios = s.mem.ios)
    (ht : t'.holds = true → t.holds = true ∧ t.tag = t'.tag ∧ t.place = t'.place) :
    Linked (s.taskDone i q' t' ev) o := by
  refine hl.quiet rfl (fun tag => by simp [State.flags, State.taskDone, hf])
    (fun c hc => hq ▸ hc) (fun c hc => .inr hc) ?_ (fun x hx => hx)
  intro u hu huh
  rcases List.mem_or_eq_of_mem_set hu with hu | rfl
  · exact ⟨u, hu, huh, rfl, rfl⟩
  · obtain ⟨hh, htag, hplace⟩ := ht huh
    exact ⟨t, List.mem_of_getElem? hi, hh, htag, hplace⟩

theorem Linked.task_move {o' : Ownership} (hl : Linked s o) (h1 : tokens (· == t.tag) s ≤ 1)
    (hi : s.tasks[i]? = some t) (hh : t.holds = true) (hs : o'.served = o.served)
    (ho : ∀ j ≠ t.tag, o'.phase j = o.phase j)
    (hf : ∀ j ≠ t.tag, (q'.ios j).flags = (s.mem.ios j).flags)
    (hsq : ∀ c ∈ q'.ring.sq, c ∈ s.mem.ring.sq ∨
      c.tag = t.tag ∧ Place.command.Good (o'.phase t.tag) (q'.ios t.tag).flags)
    (ht : t'.holds = true → t'.tag = t.tag ∧ t'.place.Good (o'.phase t.tag) (q'.ios t.tag).flags) :
    Linked (s.taskDone i q' t' ev) o' := by
  have ha := absent_task h1 hi hh
  refine hl.move t.tag (hs.trans hl.served) ho hf ?_ ?_ ?_ ?_
  · intro c hc
    rcases hsq c hc with hc | hc
    · exact .inl ⟨ha.sq c hc, hc⟩
    · exact .inr hc
  · intro c hc
    exact .inl ⟨ha.driver c hc, .inr hc⟩
  · intro u hu huh
    rcases List.mem_set_of_eraseIdx hu with rfl | hu
    · exact .inr (ht huh)
    · exact .inl ⟨ha.tasks u hu huh, List.mem_of_mem_eraseIdx hu⟩
  · intro x hx
    refine .inl ⟨fun he => ha.thread ?_, hx⟩
    rw [← he]
    exact place_pending hx

theorem holds_of_cap (hok : t.Ok) (hm : t.mayFill = true) (hc : t.cap = 0) : t.holds = true := by
  have hq : t.queued = [] := by simpa [hc] using hok.cap
  simp [Task.holds, hm, hq]

theorem linked_call {pc pc' : IoCmdPc} (hok : t.Ok) (hfail : t.failed = false)
    (h1 : tokens (· == t.tag) s ≤ 1) (hl : Linked s o) (hi : s.tasks[i]? = some t)
    (hp : t.pc = .cmd pc) (hc : CallStep s.mem t.tag pc q' pc') :
    ∃ o', protocol.run o (queueEvents s.mem t.tag (some t.rid) pc) = some o' ∧
      Linked (s.taskDone i q' (t.called s.mem pc (.cmd pc'))
        (queueEvents s.mem t.tag (some t.rid) pc)) o' := by
  cases hn : queuedOp s.mem t.tag pc with
  | none =>
    have hev : queueEvents s.mem t.tag (some t.rid) pc = [] := by simp [queueEvents, hn]
    obtain ⟨hsq, hios⟩ := hc.quiet hn
    refine ⟨o, by simp [hev], hl.task_quiet hi hsq hios ?_⟩
    cases hc with
    | lock => simp [Task.holds, Task.mayFill, Task.called, Task.place, Task.marked, hp, hn]
    | _ => simp [Task.holds, Task.mayFill, Task.called]
  | some op =>
    obtain ⟨rfl, hop, rfl, rfl⟩ := hc.queued hn
    have hh : t.holds = true :=
      holds_of_cap hok (by simp [Task.mayFill, hp]) (by simp [Task.cap, hp, hfail])
    obtain ⟨hph, hget, hset⟩ := hl.tasks t (List.mem_of_getElem? hi) hh
    obtain ⟨hcommit, hfree⟩ := hset (by simp [Task.marked, hp])
    rw [State.flags] at hget hcommit hfree
    obtain rfl : IoCmdOp.commitAndFetchReq = op := by
      simpa [neededOp, hget, hcommit, hfree] using hop
    refine ⟨o.set t.tag .driver, ?_, ?_⟩
    · simp [queueEvents, hn, Machine.run_cons, protocol, next, hph]
    · refine hl.task_move h1 hi hh rfl (fun j hj => by simp [Ownership.set, hj])
        (fun j hj => setFlags_flags_ne _ _ _ hj) ?_ (by simp [Task.holds, Task.called, hn])
      intro c hc
      simp only [filled, List.mem_append, List.mem_singleton] at hc
      rcases hc with hc | rfl
      · exact .inl hc
      · exact .inr ⟨prepSqe_tag _ _ hok.tag, by simp [Place.Good, Ownership.set, filled]⟩

theorem linked_taskStep (hok : t.Ok) (hfail : t.failed = false) (h1 : tokens (· == t.tag) s ≤ 1)
    (hl : Linked s o) (hi : s.tasks[i]? = some t) (h : TaskStep s.mem t false q' t' ev) :
    ∃ o', protocol.run o ev = some o' ∧ Linked (s.taskDone i q' t' ev) o' := by
  have hnot : t.atFail = false := by
    by_contra hc
    exact Bool.false_ne_true (hfail.symm.trans (hok.failed (by simpa using hc)))
  have hheld : t.holds = true → o.phase t.tag = .request t.rid :=
    fun hh => (hl.tasks t (List.mem_of_getElem? hi) hh).1
  cases h with
  | verdict hp =>
    exact ⟨o, rfl, hl.task_quiet hi rfl rfl
      (by simp [Task.holds, Task.mayFill, Task.place, Task.marked, hp])⟩
  | failMark hp | failRet _ hp | failCall _ _ _ hp => simp [Task.atFail, hp] at hnot
  | copyOut hp =>
    have hh : t.holds = true :=
      holds_of_cap hok (by simp [Task.mayFill, hp]) (by simp [Task.cap, hp, hfail])
    refine ⟨o, ?_, hl.task_quiet hi rfl rfl
      (by simp [Task.holds, Task.mayFill, Task.place, Task.marked, hp])⟩
    split_ifs
    · simp [Machine.run_cons, protocol, next, hheld hh]
    · rfl
  | finalUnmap hp ho =>
    exact ⟨o, rfl, hl.task_quiet hi rfl rfl
      (by simp [Task.holds, Task.mayFill, Task.place, Task.marked, hp])⟩
  | finalRes hp ho =>
    have hh : t.holds = true :=
      holds_of_cap hok (by simp [Task.mayFill, hp]) (by simp [Task.cap, hp, hfail])
    refine ⟨o, ?_, hl.task_quiet hi rfl rfl
      (by simp [Task.holds, Task.mayFill, Task.place, Task.marked, hp])⟩
    simp [Machine.run_cons, protocol, next, hheld hh]
  | mark res hp =>
    have hh : t.holds = true :=
      holds_of_cap hok (by simp [Task.mayFill, hp]) (by simp [Task.cap, hp, hfail])
    obtain ⟨hph, hget, -⟩ := hl.tasks t (List.mem_of_getElem? hi) hh
    refine ⟨o, rfl, hl.task_move h1 hi hh rfl (fun _ _ => rfl)
      (fun j hj => markIoDone_flags_ne _ _ _ hj) (fun c hc => .inl hc) fun _ => ⟨rfl, ?_⟩⟩
    rw [State.flags] at hget
    simp [Task.place, Task.marked, Place.Good, hph, hget]
  | call q' pc pc' hp hc => exact linked_call hok hfail h1 hl hi hp hc
  | ret _ hp | putMsg hp =>
    exact ⟨o, rfl, hl.task_quiet hi rfl rfl (by simp [Task.holds, Task.mayFill])⟩

end

section

variable {tag i : ℕ} {c : Sqe} {q' : Memory}

theorem stopUnlessFetch_needGetData (q : Memory) (tag : ℕ) (res : Int32) (j : ℕ) :
    ((stopUnlessFetch q tag res).ios j).flags.needGetData = (q.ios j).flags.needGetData := by
  rcases stopUnlessFetch_flags q tag res j with h | ⟨-, h⟩ <;> rw [h]

theorem stopUnlessFetch_flags_ne (q : Memory) (res : Int32) {j : ℕ} (h : j ≠ tag) :
    ((stopUnlessFetch q tag res).ios j).flags = (q.ios j).flags :=
  (stopUnlessFetch_flags q tag res j).resolve_right fun hj => h hj.1

theorem Linked.cqe {o' : Ownership} (hl : Linked s o) (h1 : tokens (· == c.tag) s ≤ 1)
    (hc : s.driver[i]? = some c) (hs : o'.served = s'.served)
    (ho : ∀ j ≠ c.tag, o'.phase j = o.phase j) (hf : ∀ j ≠ c.tag, s'.flags j = s.flags j)
    (hsq : s'.mem.ring.sq = s.mem.ring.sq) (hd : s'.driver = s.driver.eraseIdx i)
    (ht : s'.tasks = s.tasks)
    (hp : ∀ x ∈ s'.thread.pc.place, x.1 = c.tag ∧ x.2.Good (o'.phase c.tag) (s'.flags c.tag)) :
    Linked s' o' := by
  have ha := absent_taken h1 hc
  refine hl.move c.tag hs ho hf ?_ ?_ ?_ (fun x hx => .inr (hp x hx))
  · intro e he
    rw [hsq] at he
    exact .inl ⟨ha.sq e he, he⟩
  · intro e he
    rw [hd] at he
    exact .inl ⟨ha.driver e he, .inr (List.mem_of_mem_eraseIdx he)⟩
  · intro t hm hh
    rw [ht] at hm
    exact .inl ⟨ha.tasks t hm hh, hm⟩

theorem linked_getData {pc pc' : IoCmdPc} (hw : Wf s) (h1 : tokens (· == tag) s ≤ 1)
    (hl : Linked s o) (hpc : s.thread.pc = .getData tag pc) (hc : CallStep s.mem tag pc q' pc')
    (n : ℕ) (ev : List Event) (he : ev = queueEvents s.mem tag none pc) :
    ∃ o', protocol.run o ev = some o' ∧
      Linked { s.goto (.getData tag pc') with mem := q', getDatas := n, log := s.log ++ ev } o' := by
  subst he
  cases hn : queuedOp s.mem tag pc with
  | none =>
    obtain ⟨hsq, hios⟩ := hc.quiet hn
    refine ⟨o, by simp [queueEvents, hn], hl.quiet rfl (fun j => by simp [State.flags, hios])
      (fun c hc => hsq ▸ hc) (fun c hc => .inr hc) (fun t ht hh => ⟨t, ht, hh, rfl, rfl⟩) ?_⟩
    cases hc with
    | lock => simp [State.goto, ThreadPc.place, hpc]
    | _ => simp [State.goto, ThreadPc.place]
  | some op =>
    obtain ⟨rfl, hop, rfl, rfl⟩ := hc.queued hn
    have ha := absent_goto (.getData tag .sub) h1 (by simp [hpc, ThreadPc.pending]) rfl
    obtain ⟨hph, hneed⟩ := hl.thread (tag, .getData) (by simp [hpc, ThreadPc.place])
    obtain rfl : op = .needGetData := by
      rw [State.flags] at hneed
      exact Option.some_injective _ (hop.symm.trans hneed)
    refine ⟨o.set tag .driver, by simp [queueEvents, hn, Machine.run_cons, protocol, next, hph], ?_⟩
    refine hl.move tag hl.served (fun j hj => by simp [Ownership.set, hj])
      (fun j hj => setFlags_flags_ne _ _ _ hj) ?_ (fun c hc => .inl ⟨ha.driver c hc, .inr hc⟩)
      (fun t ht hh => .inl ⟨ha.tasks t ht hh, ht⟩) (by simp [State.goto, ThreadPc.place])
    intro c hc
    simp only [filled, List.mem_append, List.mem_singleton] at hc
    rcases hc with hc | rfl
    · exact .inl ⟨ha.sq c hc, hc⟩
    · exact .inr ⟨prepSqe_tag _ _ (hw.thread tag (by simp [hpc, ThreadPc.tag?])),
        by simp [Place.Good, Ownership.set, State.flags, filled]⟩

end

theorem Linked.still (hl : Linked s o) (ev : List Event) (hr : protocol.run o ev = some o)
    (hlog : s'.log = s.log ++ ev) (hs : s'.served = s.served) (hios : s'.mem.ios = s.mem.ios)
    (hsq : s'.mem.ring.sq = s.mem.ring.sq) (hd : s'.driver = s.driver) (ht : s'.tasks = s.tasks)
    (hp : s'.thread.pc.place = none) :
    ∃ ev o', s'.log = s.log ++ ev ∧ protocol.run o ev = some o' ∧ Linked s' o' := by
  refine ⟨ev, o, hlog, hr, hl.quiet hs (fun j => by simp [State.flags, hios]) (fun c hc => hsq ▸ hc)
    (fun c hc => .inr (hd ▸ hc)) (fun t hm hh => ⟨t, ht ▸ hm, hh, rfl, rfl⟩) (by simp [hp])⟩

theorem linked_step (hw : Wf s) (h1 : ∀ tag, tokens (· == tag) s ≤ 1)
    (hfail : ∀ t ∈ s.tasks, t.failed = false) (hl : Linked s o) (ha : a.fails = false)
    (h : Step s a s') : ∃ ev o', s'.log = s.log ++ ev ∧ protocol.run o ev = some o' ∧ Linked s' o' := by
  cases h with
  | done => exact hl.still [.exit] rfl rfl rfl rfl rfl rfl rfl rfl
  | enter => exact hl.still [] rfl (by simp) rfl rfl rfl rfl rfl rfl
  | lockCond | loadWait | loadPass | sleep | wake | unlockCond | waitCqe | fetchAdd | getDataRet | drop =>
    exact hl.still [] rfl (by simp [State.goto]) rfl rfl rfl rfl rfl rfl
  | spurious hpc => exact hl.still [] rfl (by simp) rfl rfl rfl rfl rfl (by simp [ThreadPc.place, hpc])
  | reapEnd => exact hl.still _ (run_settle s o) rfl rfl rfl rfl rfl rfl rfl
  | submitAll hpc =>
    refine ⟨[], o, by simp [State.goto], rfl, hl.quiet rfl (fun _ => rfl) (fun c hc => by cases hc)
      (fun c hc => ?_) (fun t hm hh => ⟨t, hm, hh, rfl, rfl⟩) (by simp [State.goto, ThreadPc.place])⟩
    simp only [List.mem_append] at hc
    exact hc.elim .inr .inl
  | submitPart n hpc hn =>
    refine ⟨[], o, by simp [State.goto], rfl, hl.quiet rfl (fun _ => rfl) (fun c hc => List.mem_of_mem_drop hc)
      (fun c hc => ?_) (fun t hm hh => ⟨t, hm, hh, rfl, rfl⟩) (by simp [State.goto, ThreadPc.place])⟩
    simp only [List.mem_append] at hc
    exact hc.elim .inr fun hc => .inl (List.mem_of_mem_take hc)
  | getData tag q' pc pc' hpc hc =>
    obtain ⟨o', hr, hl'⟩ := linked_getData hw (h1 tag) hl hpc hc _ _ rfl
    exact ⟨_, o', rfl, hr, hl'⟩
  | reapTarget i c res iod hpc hc ht =>
    refine ⟨[], o, by simp [State.taken], rfl, hl.quiet rfl (fun _ => rfl) (fun c hc => hc)
      (fun c hc => .inr (List.mem_of_mem_eraseIdx hc)) (fun t hm hh => ⟨t, hm, hh, rfl, rfl⟩) ?_⟩
    simp [State.taken, ThreadPc.place, hpc]
  | reapOk i c iod hpc hc =>
    obtain ⟨hph, hget⟩ := hl.driver c (List.mem_of_getElem? hc)
    refine ⟨_, { o.set c.tag (.request s.served) with served := o.served + 1 }, rfl, ?_,
      hl.cqe (h1 c.tag) hc (by simp [hl.served]) (fun j hj => by simp [Ownership.set, hj])
        (fun j hj => stopUnlessFetch_flags_ne _ _ hj) (by simp) rfl rfl ?_⟩
    · simp [Machine.run_cons, protocol, next, hph, hl.served]
    · intro x hx
      cases hx
      exact ⟨rfl, by simp [Ownership.set],
        (stopUnlessFetch_needGetData s.mem c.tag ublkIoResOk c.tag).trans hget⟩
  | reapGetData i c iod hpc hc =>
    obtain ⟨hph, -⟩ := hl.driver c (List.mem_of_getElem? hc)
    refine ⟨_, o.set c.tag .idle, rfl, by simp [Machine.run_cons, protocol, next, hph],
      hl.cqe (h1 c.tag) hc (by simp [hl.served, Ownership.set, State.taken, State.goto])
        (fun j hj => by simp [Ownership.set, hj])
        (fun j hj => (setFlags_flags_ne _ _ _ hj).trans (stopUnlessFetch_flags_ne _ _ hj))
        (by simp [setFlags, setIo]) rfl rfl ?_⟩
    intro x hx
    cases hx
    exact ⟨rfl, by simp [Place.Good, Ownership.set, State.flags, neededOp]⟩
  | reapOther i c res iod hpc hc ho hg =>
    obtain ⟨hph, -⟩ := hl.driver c (List.mem_of_getElem? hc)
    refine ⟨_, o.set c.tag .idle, rfl, by simp [Machine.run_cons, protocol, next, hph],
      hl.cqe (h1 c.tag) hc (by simp [hl.served, Ownership.set, State.taken])
        (fun j hj => by simp [Ownership.set, hj])
        (fun j hj => (setFlags_flags_ne _ _ _ hj).trans (stopUnlessFetch_flags_ne _ _ hj))
        (by simp [setFlags, setIo]) rfl rfl ?_⟩
    simp [State.taken, ThreadPc.place, hpc]
  | request tag rid hpc =>
    have hab := absent_goto .fetchAdd (h1 tag) (by simp [hpc, ThreadPc.pending]) rfl
    obtain ⟨hph, hget⟩ := hl.thread (tag, .delivered rid) (by simp [hpc, ThreadPc.place])
    refine ⟨[], o, by simp [State.goto], rfl, hl.move tag hl.served (fun _ _ => rfl)
      (fun _ _ => rfl) (fun c hc => .inl ⟨hab.sq c hc, hc⟩)
      (fun c hc => .inl ⟨hab.driver c hc, .inr hc⟩) ?_ (by simp [State.goto, ThreadPc.place])⟩
    intro t hm hh
    simp only [List.mem_append, List.mem_singleton] at hm
    rcases hm with hm | rfl
    · exact .inl ⟨hab.tasks t hm hh, hm⟩
    · exact .inr ⟨rfl, hph, hget, by simp [Task.marked]⟩
  | task i t failed q' t' ev hi hs =>
    obtain rfl : failed = false := ha
    have hm := List.mem_of_getElem? hi
    obtain ⟨o', hr, hl'⟩ := linked_taskStep (hw.tasks t hm) (hfail t hm) (h1 t.tag) hl hi hs
    exact ⟨ev, o', rfl, hr, hl'⟩

theorem linked_start {q : Memory} (h : Initialised info q) :
    ∃ o, protocol.run ⟨fun _ => .idle, 0⟩ (start q).log = some o ∧ Linked (start q) o := by
  obtain ⟨o, hr, hs, hd, -⟩ := run_fetches (o := ⟨fun _ => .idle, 0⟩) q.ring.sq (fun _ _ => rfl)
    (h.cmdTags ▸ List.nodup_range)
  have htag : ∀ e ∈ q.ring.sq, e.tag = e.cmd.tag :=
    List.map_inj_left.mp (h.tags.trans h.cmdTags.symm)
  refine ⟨o, hr, hs, ?_, by simp [start], by simp [start], by simp [start, ThreadPc.place]⟩
  intro e he
  have hlt : e.tag < info.queueDepth.toNat := by
    rw [← List.mem_range, ← h.tags]
    exact List.mem_map_of_mem he
  refine ⟨htag e he ▸ hd e he, ?_⟩
  simp [State.flags, start, h.flags _ hlt]

theorem linked_reach (h : (machine info).Reach NoFailure s) :
    ∃ o, protocol.run ⟨fun _ => .idle, 0⟩ s.log = some o ∧ Linked s o := by
  induction h with
  | init hi =>
    obtain ⟨qId, buf, mem, q, hq, rfl⟩ := hi
    exact linked_start (ublksrvQueueInit_initialised hq)
  | step hr hc hs ih =>
    obtain ⟨o, hrun, hl⟩ := ih
    obtain ⟨ev, o', hlog, hev, hl'⟩ := linked_step (wf_reach hr)
      (fun tag => tokens_tag_le_one hr (surplus_eq_zero _ hr)) (failed_reach hr) hl hc (step_cases hs)
    refine ⟨o', ?_, hl'⟩
    rw [hlog, Machine.run_append, hrun]
    exact hev

structure ExactlyOnce (s : State) : Prop where
  accepts : Accepts s.log
  once : ∀ rid, s.log.countP (Event.commits rid) ≤ 1
  after : ∀ rid l₁ e l₂, s.log = l₁ ++ e :: l₂ → e.commits rid = true → ∀ x ∈ l₂, x.uses rid = false
  outstanding : ∀ tag, (s.mem.ring.sq ++ s.driver).countP (fun e => e.tag == tag) ≤ 1

def submitThenRead : List Act :=
  List.replicate 13 (.task 0 false) ++ List.replicate 4 .thread ++
    [.submit 1, .waitCqe false, .reap 0 ublkIoResOk ⟨0, 8, 0, 4096⟩, .onRequest true]

/-- The commit of a read is queued and submitted, and the tag is delivered again. -/
def deliveredTwice : State := (runFrom oneTag (deliverRead ++ submitThenRead)).get (by decide)

theorem deliveredTwice_reach : (machine oneTag).Reach NoFailure deliveredTwice := by
  have hok : ∀ a ∈ deliverRead ++ submitThenRead, a.fails = false := by decide
  exact runFrom_reach (fun a ha _ => hok a ha) (Option.some_get _).symm

def twoTags : DevInfo := ⟨2, false, false, false⟩

/-- The handler failed on a queue of two tags, and both commits of the request are in the SQ. -/
def twoCommits : State :=
  (runFrom twoTags ([.thread, .thread, .thread, .thread, .submit 2, .waitCqe false,
    .reap 0 ublkIoResOk ⟨0, 8, 0, 4096⟩, .onRequest true, .thread] ++
      List.replicate 15 (.task 0 true))).get (by decide)

end GoUblksrv.Queue
