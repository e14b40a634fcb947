import GoUblksrv.Queue.Counter

/-!
Who wakes the queue thread. The counter never exceeds the number of goroutines that still
have their `fetch_sub` to do: a goroutine that returns from its last call without it was
overtaken by a second commit, whose extra decrement makes up for it.
-/

namespace GoUblksrv.Queue

variable {info : DevInfo} {C : State → Act → Prop} {s s' : State} {a : Act} {t t' : Task}
  {q q' : Memory} {ev : List Event} {i : ℕ} {failed : Bool}

/-- The goroutine has not done its `fetch_sub` and is not past its last call. -/
def Task.live (t : Task) : Bool := t.subs == 0 && (t.mayFill || t.pc == .cmd .sub)

/-- The goroutine returned from its last call without a `fetch_sub`. -/
def Task.lost (t : Task) : Bool := t.subs == 0 && !(t.mayFill || t.pc == .cmd .sub)

def Task.signals (t : Task) : Bool :=
  t.pc.call == some .condLock || t.pc.call == some .condSignal

/-- `onRequestAsync` finds the device, and the counter does not wrap. -/
def Counted (s : State) (a : Act) : Prop :=
  a ≠ .onRequest false ∧ (s.subtracts a = true → s.mem.tgtIoInflight ≠ -2 ^ 31)

instance (s : State) (a : Act) : Decidable (Counted s a) :=
  inferInstanceAs (Decidable (_ ∧ (_ → _)))

section

variable {p : ℕ → Bool}

theorem surplus_mono (h : Step s a s') : surplus p s ≤ surplus p s' := by
  cases h with
  | task i t failed q' t' ev hi hs =>
    have hc := List.countP_set_of_get (b := t')
      (p := fun t => decide (2 ≤ t.queued.length) && p t.tag) hi
    have hle := hs.queued_grows.length_le
    have hmono : (decide (2 ≤ t.queued.length) && p t.tag).toNat ≤
        (decide (2 ≤ t'.queued.length) && p t'.tag).toNat := by
      rw [hs.tag_eq]
      by_cases h2 : 2 ≤ t.queued.length
      · simp [h2, h2.trans hle]
      · simp [h2]
    simp only [surplus]
    omega
  | request => simp [surplus]
  | _ => exact le_refl _

theorem surplus_le (s : State) : surplus p s ≤ surplus (fun _ => true) s := by
  apply List.countP_mono_left
  intro t _ ht
  rw [Bool.and_eq_true] at ht
  simp [ht.1]

end

theorem TaskStep.keeps (h : TaskStep q t failed q' t' ev) :
    (∀ j, ((q.ios j).flags.needCommitRqComp = true → (q'.ios j).flags.needCommitRqComp = true) ∧
      ((q.ios j).flags.ioFree = true → (q'.ios j).flags.ioFree = true)) ∨
    t.mayFill = true ∧ t'.queued.length = t.queued.length + 1 ∧
      ∀ j ≠ t.tag, (q'.ios j).flags = (q.ios j).flags := by
  have mark : ∀ res j, ((q.ios j).flags.needCommitRqComp = true →
      ((ublksrvMarkIoDone q t.tag res).ios j).flags.needCommitRqComp = true) ∧
      ((q.ios j).flags.ioFree = true →
        ((ublksrvMarkIoDone q t.tag res).ios j).flags.ioFree = true) := by
    intro res j
    by_cases hj : j = t.tag
    · subst hj
      simp
    · simp [markIoDone_flags_ne _ _ _ hj]
  cases h with
  | failMark => exact .inl (mark _)
  | mark => exact .inl (mark _)
  | failCall q' pc pc' hp hc | call q' pc pc' hp hc =>
    cases hn : queuedOp q t.tag pc with
    | none =>
      obtain ⟨-, hios⟩ := hc.quiet hn
      exact .inl fun j => by simp [hios]
    | some op =>
      obtain ⟨rfl, hop, rfl, rfl⟩ := hc.queued hn
      exact .inr ⟨by simp [Task.mayFill, hp], by simp [Task.called, hn],
        fun j hj => setFlags_flags_ne _ _ _ hj⟩
  | _ => exact .inl fun j => ⟨id, id⟩

theorem TaskStep.marked (h : TaskStep q t failed q' t' ev) (hh : t'.holds = true)
    (hm : t'.marked = true) :
    ((q'.ios t.tag).flags.needCommitRqComp = true ∧ (q'.ios t.tag).flags.ioFree = true) ∨
      t.holds = true ∧ t.marked = true ∧ q'.ios = q.ios := by
  cases h with
  | failMark | mark => exact .inl (by simp)
  | verdict hp => cases failed <;> simp [Task.marked] at hm
  | failCall q' pc pc' hp hc | call q' pc pc' hp hc =>
    cases hn : queuedOp q t.tag pc with
    | some op => simp [Task.holds, Task.called, hn] at hh
    | none =>
      refine .inr ⟨?_, by simp [Task.marked, hp], (hc.quiet hn).2⟩
      cases hc <;> simp_all [Task.holds, Task.mayFill, Task.called]
  | _ => simp [Task.marked] at hm

/-- A marked request keeps the bits that its commit needs, until some goroutine commits twice on
its tag. -/
def Ready (s : State) : Prop :=
  ∀ t ∈ s.tasks, t.holds = true → t.marked = true → surplus (· == t.tag) s = 0 →
    (s.flags t.tag).needCommitRqComp = true ∧ (s.flags t.tag).ioFree = true

theorem Ready.task (h1 : ∀ tag, surplus (· == tag) s = 0 → tokens (· == tag) s ≤ 1)
    (hi : Ready s) (hg : s.tasks[i]? = some t) (hs : TaskStep s.mem t failed q' t' ev) :
    Ready (s.taskDone i q' t' ev) := by
  intro u hu hh hmark hs0
  have hsur := surplus_mono (p := (· == u.tag)) (.task i t failed q' t' ev hg hs)
  change _ ≤ surplus (· == u.tag) (s.taskDone i q' t' ev) at hsur
  have hold : surplus (· == u.tag) s = 0 := by omega
  rcases List.mem_set_of_eraseIdx hu with rfl | hu
  · rw [hs.tag_eq] at hold ⊢
    rcases hs.marked hh hmark with hbits | ⟨hh, hmark, hios⟩
    · exact hbits
    · simpa [State.flags, State.taskDone, hios] using
        hi t (List.mem_of_getElem? hg) hh hmark hold
  · obtain ⟨hc, hfree⟩ := hi u (List.mem_of_mem_eraseIdx hu) hh hmark hold
    rcases hs.keeps with hkeep | ⟨hmay, hlen, hflags⟩
    · exact ⟨(hkeep u.tag).1 hc, (hkeep u.tag).2 hfree⟩
    · by_cases htag : u.tag = t.tag
      · exfalso
        cases hth : t.holds with
        | true => exact (absent_task (h1 t.tag (htag ▸ hold)) hg hth).tasks u hu hh htag
        | false =>
          have hne : t.queued ≠ [] := by simpa [Task.holds, hmay] using hth
          have hpos := List.length_pos_iff.mpr hne
          rw [surplus, List.countP_eq_zero] at hs0
          refine hs0 t' (List.mem_set (List.getElem?_eq_some_iff.mp hg).1 _) ?_
          simp [hs.tag_eq, htag]
          omega
      · have := hflags u.tag htag
        simp only [State.flags, State.taskDone] at hc hfree ⊢
        rw [this]
        exact ⟨hc, hfree⟩

theorem Ready.of_flags (hi : Ready s) (hsur : ∀ p, surplus p s ≤ surplus p s')
    (ht : ∀ t ∈ s'.tasks, t.marked = true → t ∈ s.tasks)
    (hf : ∀ t ∈ s.tasks, t.holds = true → surplus (· == t.tag) s = 0 →
      s'.flags t.tag = s.flags t.tag) : Ready s' := by
  intro t hm hh hmark hs
  have hs0 : surplus (· == t.tag) s = 0 := by
    have := hsur (· == t.tag)
    omega
  have hm := ht t hm hmark
  rw [hf t hm hh hs0]
  exact hi t hm hh hmark hs0

theorem Ready.step (h1 : ∀ tag, surplus (· == tag) s = 0 → tokens (· == tag) s ≤ 1) (hi : Ready s)
    (h : Step s a s') : Ready s' := by
  have hsur : ∀ p, surplus p s ≤ surplus p s' := fun p => surplus_mono h
  cases h with
  | task i t failed q' t' ev hg hs => exact hi.task h1 hg hs
  | getData tag q' pc pc' hpc hc =>
    refine hi.of_flags hsur (fun t ht _ => ht) fun t ht hh hs => ?_
    cases hn : queuedOp s.mem tag pc with
    | none => simp [State.flags, (hc.quiet hn).2]
    | some op =>
      obtain ⟨rfl, -, rfl, rfl⟩ := hc.queued hn
      refine setFlags_flags_ne _ _ _ fun he => ?_
      have ha := absent_goto (.getData tag .sub) (he ▸ h1 _ hs)
        (by simp [hpc, ThreadPc.pending]) rfl
      exact ha.tasks t ht hh he
  | reapOk i c iod hpc hc =>
    refine hi.of_flags hsur (fun t ht _ => ht) fun t ht hh hs => ?_
    refine stopUnlessFetch_flags_ne _ _ fun he => ?_
    exact (absent_taken (he ▸ h1 _ hs) hc).tasks t ht hh he
  | reapGetData i c iod hpc hc | reapOther i c res iod hpc hc =>
    refine hi.of_flags hsur (fun t ht _ => ht) fun t ht hh hs => ?_
    have hne : t.tag ≠ c.tag := fun he => (absent_taken (he ▸ h1 _ hs) hc).tasks t ht hh he
    exact (setFlags_flags_ne _ _ _ hne).trans (stopUnlessFetch_flags_ne _ _ hne)
  | request tag rid hpc =>
    refine hi.of_flags hsur (fun t ht hmark => ?_) fun _ _ _ _ => rfl
    simp only [List.mem_append, List.mem_singleton] at ht
    rcases ht with ht | rfl
    · exact ht
    · simp [Task.marked] at hmark
  | _ => exact hi.of_flags hsur (fun t ht _ => ht) fun _ _ _ _ => rfl

theorem ready_reach (h : (machine info).Reach C s) : Ready s := by
  refine h.invariant ?_ fun t a t' hr hi _ hs =>
    hi.step (fun tag => tokens_tag_le_one hr) (step_cases hs)
  rintro t ⟨qId, buf, mem, q, -, rfl⟩
  simp [Ready, start]

theorem TaskStep.lost (h : TaskStep q t failed q' t' ev) (hl : t'.lost = true) (hn : t.lost = false) :
    t.pc = .cmd .fill ∧ q' = q ∧ t'.locked = false ∧ t'.subs = t.subs ∧
      (neededOp (q.ios t.tag).flags = none ∨ q.ring.sqEntries ≤ q.ring.sq.length) := by
  simp only [Task.lost, Bool.and_eq_true, beq_iff_eq, Bool.not_eq_true', Bool.or_eq_false_iff,
    beq_eq_false_iff_ne, Bool.and_eq_false_iff] at hl hn
  obtain ⟨hsubs, hmay, hpc'⟩ := hl
  cases h with
  | call q' pc pc' hp hc =>
    cases hc with
    | noWork hw =>
      exact ⟨hp, rfl, by simp [Task.locked, TaskPc.call, Task.called, IoCmdPc.locked], by simp [Task.called],
        .inl hw⟩
    | noSqe op hw hr =>
      exact ⟨hp, rfl, by simp [Task.locked, TaskPc.call, Task.called, IoCmdPc.locked], by simp [Task.called],
        .inr hr⟩
    | _ => simp_all [Task.mayFill, Task.called]
  | verdict hp => cases failed <;> simp [Task.mayFill] at hmay
  | _ => simp_all [Task.mayFill, Task.called]

section

variable {t : Task}

theorem locked_unique (h : (machine info).Reach C s) (hi : s.tasks[i]? = some t) (hl : t.locked = true) :
    s.mem.lock.toNat ≤ lockers s ∧ ∀ u ∈ s.tasks.eraseIdx i, u.locked = false := by
  have hle := lockers_reach h
  have hone := Bool.toNat_le s.mem.lock
  have hc := List.countP_eraseIdx_of_get (p := Task.locked) hi
  simp only [hl, Bool.toNat_true] at hc
  simp only [lockers] at hle ⊢
  refine ⟨by omega, ?_⟩
  have hz : (s.tasks.eraseIdx i).countP Task.locked = 0 := by omega
  rw [List.countP_eq_zero] at hz
  simpa using hz

theorem leak_reach (h : (machine info).Reach C s) :
    (∃ t ∈ s.tasks, t.lost = true) → lockers s < s.mem.lock.toNat := by
  apply h.invariant (I := fun s => (∃ t ∈ s.tasks, t.lost = true) → lockers s < s.mem.lock.toNat)
  · rintro t ⟨qId, buf, mem, q, -, rfl⟩
    simp [start]
  · intro s a s' hr hi _ hs
    have hstep := step_cases hs
    have hlock := lockers_step hstep
    have keep : (∃ t ∈ s.tasks, t.lost = true) → lockers s' < s'.mem.lock.toNat := by
      intro hl
      have := hi hl
      omega
    cases hstep with
    | task i t failed q' t' ev hg hst =>
      rintro ⟨u, hu, hul⟩
      rcases List.mem_set_of_eraseIdx hu with rfl | hu
      · cases hn : t.lost with
        | true => exact keep ⟨t, List.mem_of_getElem? hg, hn⟩
        | false =>
          obtain ⟨hp, rfl, hunl, -, -⟩ := hst.lost hul hn
          have hl : t.locked = true := by simp [Task.locked, TaskPc.call, IoCmdPc.locked, hp]
          have hle := lockers_reach hr
          have hc := List.countP_set_of_get (b := u) (p := Task.locked) hg
          simp only [hl, hunl, Bool.toNat_true, Bool.toNat_false] at hc
          simp only [lockers] at hle ⊢
          omega
      · exact keep ⟨u, List.mem_of_mem_eraseIdx hu, hul⟩
    | request tag rid hpc =>
      rintro ⟨u, hu, hul⟩
      simp only [List.mem_append, List.mem_singleton] at hu
      rcases hu with hu | rfl
      · exact keep ⟨u, hu, hul⟩
      · simp [Task.lost, Task.mayFill] at hul
    | _ => exact keep

theorem second_commit (h : (machine info).Reach C s) (hi : s.tasks[i]? = some t)
    (hp : t.pc = .cmd .fill) (hsubs : t.subs = 0)
    (he : neededOp (s.flags t.tag) = none ∨ s.mem.ring.sqEntries ≤ s.mem.ring.sq.length) :
    ∃ u ∈ s.tasks, 2 ≤ u.subs := by
  have hmem := List.mem_of_getElem? hi
  have hq : t.queued = [] := by
    have := ((wf_reach h).tasks t hmem).subs
    simp only [Task.atSub, hp, hsubs, Bool.toNat_false] at this
    exact List.eq_nil_of_length_eq_zero this.symm
  have hh : t.holds = true := by simp [Task.holds, Task.mayFill, hp, hq]
  have hpos : 0 < surplus (fun _ => true) s := by
    rcases he with hn | hr
    · by_contra hc
      have hle := surplus_le (p := (· == t.tag)) s
      obtain ⟨hcommit, hfree⟩ := ready_reach h t hmem hh (by simp [Task.marked, hp]) (by omega)
      cases hg : (s.flags t.tag).needGetData <;> simp [neededOp, hcommit, hfree, hg] at hn
    · have hk := tokens_all_le h
      have hd := depth_le_sqEntries h
      have hone := List.countP_pos_of_get (p := Task.holds) hi hh
      simp only [tokens, List.countP_true, Bool.and_true] at hk
      change _ + _ + s.tasks.countP Task.holds + _ ≤ _ at hk
      omega
  obtain ⟨u, hu, hu2⟩ := List.countP_pos_iff.mp hpos
  have hlen : 2 ≤ u.queued.length := by simpa using hu2
  have hne : u ≠ t := by
    rintro rfl
    simp [hq] at hlen
  have hunl := (locked_unique h hi (by simp [Task.locked, TaskPc.call, IoCmdPc.locked, hp])).2 u
    (List.mem_eraseIdx_of_ne hi hu hne)
  have hat : u.atSub = false := by
    unfold Task.atSub
    split
    · simp [Task.locked, TaskPc.call, *, IoCmdPc.locked] at hunl
    · simp [Task.locked, TaskPc.call, *, IoCmdPc.locked] at hunl
    · rfl
  have := ((wf_reach h).tasks u hu).subs
  simp only [hat, Bool.toNat_false] at this
  exact ⟨u, hu, by omega⟩

end

theorem subs_le_two (h : (machine info).Reach C s) : ∀ t ∈ s.tasks, t.subs ≤ 2 := by
  intro t ht
  obtain ⟨hc, -, hs, -⟩ := (wf_reach h).tasks t ht
  have hle : t.cap ≤ 2 := by
    unfold Task.cap
    split <;> first | omega | split_ifs <;> omega
  omega

theorem TaskStep.live (h : TaskStep q t failed q' t' ev) (hl : t.lost = true ∨ t'.lost = false) :
    t.live.toNat + t.subs ≤ t'.live.toNat + t'.subs := by
  have hle := Bool.toNat_le t.live
  have key : ∀ u : Task, u.live.toNat + u.lost.toNat = u.inflight.toNat := by
    intro u
    cases hs : u.subs == 0 <;> cases hm : u.mayFill || u.pc == .cmd .sub <;>
      simp [Task.live, Task.lost, Task.inflight, hs, hm]
  have h0 := key t
  have h1 := key t'
  have hin : ∀ u : Task, u.inflight.toNat + u.subs = max u.subs 1 := by
    intro u
    cases hs : u.subs <;> simp [Task.inflight, hs]
  have hin0 := hin t
  have hin1 := hin t'
  rcases h.inflight with ⟨hs, -⟩ | ⟨-, hs, -⟩ <;> rcases hl with hl | hl <;>
    simp only [hl, Bool.toNat_true, Bool.toNat_false] at h0 h1 <;> omega

theorem live_reach (h : (machine info).Reach C s) :
    s.tasks.length ≤ s.tasks.countP Task.live + (s.tasks.map Task.subs).sum + s.getDatas := by
  refine h.invariant (I := fun s => s.tasks.length ≤
    s.tasks.countP Task.live + (s.tasks.map Task.subs).sum + s.getDatas) ?_ ?_
  · rintro t ⟨qId, buf, mem, q, -, rfl⟩
    simp [start]
  · intro s a s' hr hi _ hs
    cases step_cases hs with
    | task i t failed q' t' ev hg hst =>
      have hc := List.countP_set_of_get (b := t') (p := Task.live) hg
      have hsum := List.sum_map_set_of_get (b := t') (f := Task.subs) hg
      simp only [List.length_set]
      by_cases hl : t.lost = true ∨ t'.lost = false
      · have := hst.live hl
        omega
      · obtain ⟨hn, hl⟩ : t.lost = false ∧ t'.lost = true := by simpa using hl
        obtain ⟨hp, rfl, -, hsubs, he⟩ := hst.lost hl hn
        have h0 : t.subs = 0 := by
          simp only [Task.lost, Bool.and_eq_true, beq_iff_eq] at hl
          omega
        obtain ⟨u, hu, hu2⟩ := second_commit hr hg hp h0 he
        have hpos : 0 < s.tasks.countP (fun t => decide (2 ≤ t.subs)) :=
          List.countP_pos_iff.mpr ⟨u, hu, by simpa using hu2⟩
        have hid := sum_subs (subs_le_two hr)
        have hlost : s.tasks.countP Task.lost = 0 := by
          rw [List.countP_eq_zero]
          intro u hu hul
          have := leak_reach hr ⟨u, hu, hul⟩
          have := (locked_unique hr hg (by simp [Task.locked, TaskPc.call, IoCmdPc.locked, hp])).1
          omega
        have hsplit : s.tasks.countP Task.inflight ≤
            s.tasks.countP Task.live + s.tasks.countP Task.lost := by
          refine List.countP_le_add fun u _ hin => ?_
          simp only [Task.inflight] at hin
          cases hm : u.mayFill || u.pc == .cmd .sub <;> simp [Task.live, Task.lost, hin, hm]
        have hlive := Bool.toNat_le t.live
        omega
    | request tag rid hpc =>
      simp [State.goto, List.countP_append, Task.live, Task.mayFill]
      omega
    | getData tag q' pc pc' hpc hc =>
      simp only [State.goto]
      split_ifs <;> omega
    | _ => exact hi

def Signalled (s : State) : Prop :=
  0 < s.mem.tgtIoInflight ∨ ∃ t ∈ s.tasks, t.signals = true

theorem TaskStep.signalled (h : TaskStep q t failed q' t' ev) (hlt : q.tgtIoInflight < 2 ^ 31)
    (hs : 0 < q.tgtIoInflight ∨ t.signals = true) :
    0 < q'.tgtIoInflight ∨ t'.signals = true ∨ t.pc.call = some .condSignal := by
  have sub : q.tgtIoInflight ≠ 1 → 0 < q.tgtIoInflight → 0 < wrapInt (q.tgtIoInflight - 1) := by
    intro hne hpos
    rw [wrapInt_eq (by omega) (by omega)]
    omega
  cases h with
  | failCall q' pc pc' hp hc | call q' pc pc' hp hc =>
    cases hc with
    | sub hne =>
      rcases hs with hs | hs
      · exact .inl (sub hne hs)
      · simp [Task.signals, TaskPc.call, hp] at hs
    | condSignal => exact .inr (.inr (by simp [TaskPc.call, hp]))
    | condLock | subLast => exact .inr (.inl (by simp [Task.signals, TaskPc.call, Task.called]))
    | _ => simpa [Task.signals, TaskPc.call, Task.called, hp, filled, setFlags, setIo] using hs
  | _ => simp_all [Task.signals, TaskPc.call, ublksrvMarkIoDone, setIo]

theorem TaskStep.asleep (h : TaskStep q t failed q' t' ev) (hc : q'.cond = .asleep) :
    q.cond = .asleep ∧ t.pc.call ≠ some .condSignal := by
  cases h with
  | failCall q' pc pc' hp hcall | call q' pc pc' hp hcall =>
    cases hcall with
    | condSignal => cases hq : q.cond <;> simp [Waiter.signal, hq] at hc
    | _ => exact ⟨hc, by simp [TaskPc.call, hp]⟩
  | _ => exact ⟨hc, by simp [TaskPc.call, *]⟩

theorem inflight_lt (h : (machine info).Reach C s) : s.mem.tgtIoInflight < 2 ^ 31 := by
  rw [inflight_reach h]
  exact Int.bmod_lt (by decide)

theorem signalled_reach (h : (machine info).Reach C s) :
    s.thread.pc = .condWait ∨ s.thread.pc = .blocked ∧ s.mem.cond = .asleep → Signalled s := by
  refine h.invariant (I := fun s =>
    s.thread.pc = .condWait ∨ s.thread.pc = .blocked ∧ s.mem.cond = .asleep → Signalled s) ?_ ?_
  · rintro t ⟨qId, buf, mem, q, -, rfl⟩
    simp [start]
  · intro s a s' hr hi _ hs
    cases step_cases hs with
    | loadWait hpc hpos => exact fun _ => .inl hpos
    | sleep hpc => exact fun _ => hi (.inl hpc)
    | task i t failed q' t' ev hg hst =>
      intro hpc
      have hmem := List.mem_of_getElem? hg
      have hno : t.pc.call ≠ some .condSignal := by
        rcases hpc with hpc | ⟨-, hcond⟩
        · intro hcall
          have hpos := List.countP_pos_of_get (p := Task.condHeld) hg
            (by simp [Task.condHeld, hcall, IoCmdPc.condHeld])
          have heq := condHolders_reach hr
          have hone := Bool.toNat_le s.mem.condMutex
          have hpc : s.thread.pc.condHeld = true := by
            change s.thread.pc = .condWait at hpc
            rw [hpc]
            rfl
          simp only [condHolders, hpc, Bool.toNat_true] at heq
          omega
        · exact (hst.asleep hcond).2
      have hsig : Signalled s := by
        rcases hpc with hpc | ⟨hpc, hcond⟩
        · exact hi (.inl hpc)
        · exact hi (.inr ⟨hpc, (hst.asleep hcond).1⟩)
      have moved : 0 < s.mem.tgtIoInflight ∨ t.signals = true →
          Signalled { s with mem := q', tasks := s.tasks.set i t', log := s.log ++ ev } := by
        intro h0
        rcases hst.signalled (inflight_lt hr) h0 with hpos | hsig | hcall
        · exact .inl hpos
        · exact .inr ⟨t', List.mem_set (List.getElem?_eq_some_iff.mp hg).1 _, hsig⟩
        · exact absurd hcall hno
      rcases hsig with hpos | ⟨u, hu, hus⟩
      · exact moved (.inl hpos)
      · by_cases hut : u = t
        · exact moved (.inr (hut ▸ hus))
        · exact .inr ⟨u, List.mem_set_of_ne hg hu hut, hus⟩
    | reapTarget i c res iod hpc | reapOther i c res iod hpc =>
      simp [State.taken, hpc]
    | spurious hpc => simp [hpc]
    | enter => simp
    | waitCqe => simp
    | _ => simp [State.goto, afterReap]

/-- The queue thread sleeps only while a goroutine will decrement the counter or signal. -/
def Awaited (s : State) : Prop :=
  s.thread.pc = .blocked → s.mem.cond = .asleep →
    (∃ t ∈ s.tasks, t.live = true) ∨ ∃ t ∈ s.tasks, t.signals = true

theorem dropped_reach (h : (machine info).Reach Counted s) : s.dropped = 0 := by
  apply h.invariant (I := fun s => s.dropped = 0)
  · rintro t ⟨qId, buf, mem, q, -, rfl⟩
    rfl
  · intro s a s' _ hi hc hs
    cases step_cases hs with
    | drop => exact absurd rfl hc.1
    | _ => exact hi

theorem le_due_reach (h : (machine info).Reach Counted s) : -2 ^ 31 ≤ s.due := by
  apply h.invariant (I := fun s => -2 ^ 31 ≤ s.due)
  · rintro t ⟨qId, buf, mem, q, -, rfl⟩
    simp [State.due, start]
  · intro s a s' hr hi hc hs
    rcases due_step (step_cases hs) with ⟨hd, -⟩ | ⟨k, hk, hd, -⟩
    · omega
    · rcases hk with hk | ⟨hk, hsub⟩
      · omega
      · have hne := hc.2 hsub
        rw [inflight_reach hr] at hne
        have : s.due ≠ -2 ^ 31 := by
          intro he
          exact hne (by rw [he]; decide)
        omega

theorem awaited (info : DevInfo) : ∀ s, (machine info).Reach Counted s → Awaited s := by
  intro s h hpc hcond
  rcases signalled_reach h (.inr ⟨hpc, hcond⟩) with hpos | hsig
  · left
    have hlive := live_reach h
    have hlow := le_due_reach h
    rw [inflight_reach h] at hpos
    have hdue : 0 < s.due := by
      by_contra hle
      rw [wrapInt_eq hlow (by omega)] at hpos
      omega
    simp only [State.due, dropped_reach h, hpc, reduceCtorEq, ↓reduceIte] at hdue
    have : 0 < s.tasks.countP Task.live := by omega
    exact List.countP_pos_iff.mp this
  · exact .inr hsig

def waitForRead : State :=
  (runFromIf (fun s a => decide (Counted s a)) oneTag
    (deliverRead ++ List.replicate 4 .thread)).get (by decide)

theorem awaited_waitForRead :
    waitForRead.thread.pc = .blocked ∧ waitForRead.mem.cond = .asleep ∧ Awaited waitForRead :=
  ⟨by decide, by decide, awaited oneTag _
    (runFromIf_reach (fun _ _ => of_decide_eq_true) (Option.some_get _).symm)⟩

/-- The registry has no entry for the device, and the thread waits for the dropped request. -/
def waitForDropped : State :=
  (runFrom oneTag [.thread, .thread, .thread, .thread, .submit 1, .waitCqe false,
    .reap 0 ublkIoResOk ⟨0, 8, 0, 4096⟩, .onRequest false, .thread, .reapEnd, .thread, .thread,
    .thread, .thread]).get (by decide)

theorem not_awaited_waitForDropped :
    ¬ ∀ info s, (machine info).Reach Machine.Free s → Awaited s := by
  intro h
  have hr : (machine oneTag).Reach Machine.Free waitForDropped :=
    runFrom_reach (fun _ _ _ => trivial) (Option.some_get _).symm
  rcases h _ _ hr (by decide) (by decide) with hl | hs
  · exact absurd hl (by decide)
  · exact absurd hs (by decide)

end GoUblksrv.Queue
