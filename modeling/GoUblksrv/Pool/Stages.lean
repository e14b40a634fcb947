import GoUblksrv.Pool.Custody

namespace GoUblksrv.Pool

variable {s s' : State} {a : Act} {t t' : Task} {C : State → Act → Prop} {o : ℕ}

theorem Custody.owner (hi : Custody s) (hw : 0 < s.work o) :
    ∃ t, s.tasks[(s.objs o).rid]? = some t ∧ t.obj = o ∧ t.pc = .recvComplete := by
  rw [hi.work, State.receivers] at hw
  obtain ⟨t, ht, hr⟩ := List.countP_pos_iff.mp hw
  simp only [Bool.and_eq_true, beq_iff_eq] at hr
  obtain ⟨k, hk⟩ := List.mem_iff_getElem?.mp ht
  have hpc : t.pc = .recvComplete := by
    have := hr.1
    unfold Task.receives at this
    split at this
    · assumption
    · cases this
  have hact : t.active = true := by simp [Task.active, hpc]
  have hrid := hi.rid k t hk hact
  rw [hr.2] at hrid
  exact ⟨t, hrid ▸ hk, hr.2, hpc⟩

theorem Custody.unique (hi : Custody s) {j k : ℕ} {u : Task} (ht : s.tasks[k]? = some t)
    (hu : s.tasks[j]? = some u) (ha : t.active = true) (hb : u.active = true) (ho : u.obj = t.obj) :
    j = k := by
  rw [← hi.rid j u hu hb, ho, hi.rid k t ht ha]

theorem Custody.work_le_one (hi : Custody s) (o : ℕ) : s.work o ≤ 1 := by
  have := hi.le_one o
  have := receivers_le_users s o
  rw [hi.work]
  omega

theorem Custody.work_of_not_receiving (hi : Custody s) {k : ℕ} (ht : s.tasks[k]? = some t)
    (ha : t.active = true) (hp : t.pc ≠ .recvComplete) : s.work t.obj = 0 := by
  by_contra hw
  obtain ⟨u, hu, ho, hpc⟩ := hi.owner (Nat.pos_of_ne_zero hw)
  have hact : u.active = true := by simp [Task.active, hpc]
  have := hi.unique ht hu ha hact ho
  rw [this, ht] at hu
  cases hu
  exact hp hpc

theorem work_pos_of_handler {j : ℕ} {h : Handler} (hj : s.handlers[j]? = some h) : 0 < s.work h.obj := by
  have := List.countP_pos_of_get (p := fun g => g.obj == h.obj) hj (by simp)
  simp only [State.work]
  omega

theorem Custody.handler_alone (hi : Custody s) {j : ℕ} {h : Handler} (hj : s.handlers[j]? = some h) :
    h.obj ∉ s.requests ∧ ∀ g ∈ s.handlers.eraseIdx j, g.obj ≠ h.obj := by
  have hone := hi.work_le_one h.obj
  have hcount := List.countP_pos_of_get (p := fun g => g.obj == h.obj) hj (by simp)
  simp only [State.work] at hone
  constructor
  · intro hr
    have := List.count_pos_iff.mpr hr
    omega
  · intro g hg ho
    have hpos := List.countP_pos_iff (p := fun g => g.obj == h.obj).mpr ⟨g, hg, beq_iff_eq.mpr ho⟩
    have hsplit := List.countP_eraseIdx_of_get (p := fun g => g.obj == h.obj) hj
    simp only [beq_self_eq_true, Bool.toNat_true] at hsplit
    omega

theorem record_eq_set {reply : Reply} (h : s.tasks[(s.objs o).rid]? = some t) :
    s.record o reply = s.tasks.set (s.objs o).rid { t with reply := some reply } := by
  rw [State.record, List.modify_eq_set_getElem?, h]
  rfl

def TaskPc.received : TaskPc → Bool
  | .sendRequest | .recvComplete | .ended => false
  | _ => true

/-- The handler has answered the request of `t`, and a read's bytes are in `r`. -/
def Answered (r : Request) (t : Task) : Prop :=
  t.opType ≠ -1 → ∃ reply, t.reply = some reply ∧
    (t.opType = longhornCmdTypeRead → r.rLen = r.size.toNat ∧ ∀ i < r.size.toNat, r.rData i = reply.p i)

structure Stage (s : State) (t : Task) : Prop where
  sending : t.pc = .sendRequest → t.reply = none
  fresh : t.pc = .recvComplete →
    (t.obj ∈ s.requests ∨ ∃ h ∈ s.handlers, h.obj = t.obj ∧ h.sending = false) → t.reply = none
  answered : t.pc = .recvComplete →
    (0 < (s.objs t.obj).complete ∨ ∃ h ∈ s.handlers, h.obj = t.obj ∧ h.sending = true) →
    Answered (s.objs t.obj) t
  received : t.pc.received = true → Answered (s.objs t.obj) t
  unsupported : t.opType = -1 → t.reply = none

theorem active_of_received (h : t.pc.received = true) : t.active = true := by
  unfold TaskPc.received at h
  unfold Task.active
  split at h <;> simp_all

theorem Stage.other (hi : Stage s t) (hu : t.active = true → t.obj ≠ o)
    (hobj : ∀ p ≠ o, s'.objs p = s.objs p) (hreq : ∀ p ∈ s'.requests, p = o ∨ p ∈ s.requests)
    (hh : ∀ h ∈ s'.handlers, h.obj = o ∨ h ∈ s.handlers) : Stage s' t := by
  have hne : ∀ {pc}, t.pc = pc → pc ≠ .ended → t.obj ≠ o := by
    intro pc hp he
    apply hu
    unfold Task.active
    split
    · exact absurd (hp.symm.trans ‹_›) he
    · rfl
  refine ⟨hi.sending, ?_, ?_, ?_, hi.unsupported⟩
  · intro hp hw
    have hto := hne hp (by simp)
    apply hi.fresh hp
    rcases hw with hw | ⟨h, hm, ho, hs⟩
    · exact .inl ((hreq _ hw).resolve_left hto)
    · exact .inr ⟨h, (hh h hm).resolve_left fun he => hto (ho ▸ he), ho, hs⟩
  · intro hp hw
    have hto := hne hp (by simp)
    rw [hobj _ hto] at hw ⊢
    apply hi.answered hp
    rcases hw with hw | ⟨h, hm, ho, hs⟩
    · exact .inl hw
    · exact .inr ⟨h, (hh h hm).resolve_left fun he => hto (ho ▸ he), ho, hs⟩
  · intro hr
    rw [hobj _ (hu (active_of_received hr))]
    exact hi.received hr

theorem stage_set (hi : ∀ t ∈ s.tasks, Stage s t) (hc : Custody s) {k : ℕ}
    (ht : s.tasks[k]? = some t) (ha : t.active = true) (htasks : s'.tasks = s.tasks.set k t')
    (hobj : ∀ p ≠ t.obj, s'.objs p = s.objs p)
    (hreq : ∀ p ∈ s'.requests, p = t.obj ∨ p ∈ s.requests)
    (hh : ∀ h ∈ s'.handlers, h.obj = t.obj ∨ h ∈ s.handlers) (hnew : Stage s' t') :
    ∀ u ∈ s'.tasks, Stage s' u := by
  intro u hu
  rw [htasks] at hu
  obtain ⟨j, hj⟩ := List.mem_iff_getElem?.mp hu
  rcases List.get_set_cases hj with ⟨rfl, rfl⟩ | ⟨hne, hj⟩
  · exact hnew
  · refine (hi u (List.mem_of_getElem? hj)).other (o := t.obj) ?_ hobj hreq hh
    intro hb ho
    exact hne (hc.unique ht hj ha hb ho)

theorem methodOf_eq_none (hop : t.Captured) (ht : (s.objs o).type = t.opType.toUInt32)
    (h : methodOf (s.objs o).type = none) : t.opType = -1 := by
  rw [ht, hop.opType] at h
  rw [hop.opType]
  rcases reqToLonghornCmdType_cases t.iod with ⟨-, ht⟩ | ⟨-, ht⟩ | ⟨-, ht⟩ | ht
  · exact absurd (ht ▸ h) (by decide)
  · exact absurd (ht ▸ h) (by decide)
  · exact absurd (ht ▸ h) (by decide)
  · exact ht

theorem methodOf_unsupported (ht : (s.objs o).type = t.opType.toUInt32) (hop : t.opType = -1) :
    methodOf (s.objs o).type = none := by
  rw [ht, hop]
  rfl

theorem methodOf_read (hop : t.opType = longhornCmdTypeRead)
    (ht : (s.objs o).type = t.opType.toUInt32) : methodOf (s.objs o).type = some .read := by
  rw [ht, hop]
  rfl

theorem Answered.keep {r r' : Request} (h : Answered r t) (hs : r'.size = r.size)
    (hl : r'.rLen = r.rLen) (hd : r'.rData = r.rData) (ho : t'.opType = t.opType)
    (hr : t'.reply = t.reply) : Answered r' t' := by
  intro hop
  obtain ⟨reply, hrep, hread⟩ := h (ho ▸ hop)
  refine ⟨reply, hr.trans hrep, ?_⟩
  intro hread'
  rw [hs, hl, hd]
  exact hread (ho ▸ hread')

theorem Answered.setComplete {n : ℕ} (h : Answered (s.objs t.obj) t) :
    Answered ((s.setObj o { s.objs o with complete := n }).objs t.obj) t := by
  apply h.keep
  · apply setObj_field Request.size
    rfl
  · apply setObj_field Request.rLen
    rfl
  · apply setObj_field Request.rData
    rfl
  · rfl
  · rfl

theorem Stage.spawned (hi : Stage s t) {x : ℕ} {rest : List ℕ} {m : Method}
    (hr : s.requests = x :: rest) :
    Stage { s with requests := rest, handlers := s.handlers ++ [⟨x, m, false⟩] } t := by
  refine ⟨hi.sending, ?_, ?_, hi.received, hi.unsupported⟩
  · intro hp hw
    apply hi.fresh hp
    rcases hw with hw | ⟨g, hg, ho, hs⟩
    · exact .inl (hr ▸ List.mem_cons_of_mem x hw)
    · rcases List.mem_append.mp hg with hg | hg
      · exact .inr ⟨g, hg, ho, hs⟩
      · rw [List.mem_singleton.mp hg] at ho
        exact .inl (by simp [hr, ← ho])
  · intro hp hw
    apply hi.answered hp
    rcases hw with hw | ⟨g, hg, ho, hs⟩
    · exact .inl hw
    · rcases List.mem_append.mp hg with hg | hg
      · exact .inr ⟨g, hg, ho, hs⟩
      · rw [List.mem_singleton.mp hg] at hs
        cases hs

theorem Stage.advance (hi : Stage s t) (hp : t.pc.received = true)
    (hp' : t'.pc.received = true ∨ t'.pc = .ended) (hobj : s'.objs = s.objs) (ho : t'.obj = t.obj)
    (hop : t'.opType = t.opType) (hr : t'.reply = t.reply) : Stage s' t' := by
  have hne : t'.pc ≠ .sendRequest ∧ t'.pc ≠ .recvComplete := by
    constructor <;> intro he <;> simp [he, TaskPc.received] at hp'
  refine ⟨fun h => absurd h hne.1, fun h => absurd h hne.2, fun h => absurd h hne.2, ?_, ?_⟩
  · intro _
    rw [hobj, ho]
    exact (hi.received hp).keep rfl rfl rfl hop hr
  · intro h
    rw [hr]
    exact hi.unsupported (hop ▸ h)

theorem stage_handled (hc : Custody s) {j : ℕ} {h : Handler} {reply : Reply} {r : Request}
    (hj : s.handlers[j]? = some h) (hr : runMethod (s.objs h.obj) h.method reply = some r)
    (ht : s.tasks[(s.objs h.obj).rid]? = some t) (hto : t.obj = h.obj) (hp : t.pc = .recvComplete) :
    Stage
      { s.setObj h.obj r with
        handlers := s.handlers.set j { h with sending := true }
        tasks := s.record h.obj reply } { t with reply := some reply } := by
  have hran := runMethod_ran hr
  have hl := hto ▸ hc.loaded _ t ht (by simp [Task.active, hp])
  have hm := hc.methods h (List.mem_of_getElem? hj)
  obtain ⟨hreq, halone⟩ := hc.handler_alone hj
  constructor
  · intro hp'
    rw [hp] at hp'
    cases hp'
  · rintro _ (hw | ⟨g, hg, ho, hgs⟩)
    · exact absurd (hto ▸ hw) hreq
    · rcases List.mem_set_of_eraseIdx hg with rfl | hrest
      · cases hgs
      · exact absurd (ho.trans hto) (halone g hrest)
  · intro _ _ hop
    refine ⟨reply, rfl, ?_⟩
    intro hread
    rw [methodOf_read hread hl.type] at hm
    obtain ⟨-, hlen, hdata⟩ := hran.read (Option.some.inj hm).symm
    have hsz : r.size = (s.objs h.obj).size := hran.same.size
    have hnew : ((s.setObj h.obj r).objs t.obj) = r := by simp [State.setObj, hto]
    change ((s.setObj h.obj r).objs t.obj).rLen = _ ∧ _
    rw [hnew, hsz]
    exact ⟨hlen, hdata⟩
  · intro hp'
    rw [hp] at hp'
    cases hp'
  · intro hop
    rw [methodOf_unsupported hl.type hop] at hm
    cases hm

theorem stage_step (hc : Custody s) (hi : ∀ t ∈ s.tasks, Stage s t) (h : Step s a s') :
    ∀ t ∈ s'.tasks, Stage s' t := by
  have advance : ∀ {u : State} {k : ℕ} {t t' : Task}, u.tasks = s.tasks.set k t' →
      s.tasks[k]? = some t → t.pc.received = true → (t'.pc.received = true ∨ t'.pc = .ended) →
      t'.obj = t.obj → t'.opType = t.opType → t'.reply = t.reply → u.objs = s.objs →
      u.requests = s.requests → u.handlers = s.handlers → ∀ v ∈ u.tasks, Stage u v := by
    intro u k t t' htasks ht hp hp' ho hop hr hobj hreq hh
    apply stage_set hi hc ht (active_of_received hp) htasks (fun p _ => by rw [hobj])
    · intro p hm
      exact .inr (hreq ▸ hm)
    · intro g hm
      exact .inr (hh ▸ hm)
    · exact (hi t (List.mem_of_getElem? ht)).advance hp hp' hobj ho hop hr
  cases h with
  | deliver q tag iod buf i x his hfr hx =>
    intro t ht
    rcases List.mem_append.mp ht with ht | ht
    · exact (hi t ht).other (hc.not_free (List.mem_of_getElem? hx) ht)
        (fun _ hp => onRequestAsync_objs (i := i) hp) (fun _ => .inr) (fun _ => .inr)
    · rw [List.mem_singleton.mp ht]
      refine ⟨fun _ => rfl, ?_, ?_, ?_, fun _ => rfl⟩
      all_goals
        intro hp
        cases hp
  | spawn x rest m hd hr hm => exact fun t ht => (hi t ht).spawned hr
  | unknown x rest hd hr hm =>
    intro t ht
    have hst := hi t ht
    refine ⟨hst.sending, ?_, hst.answered, hst.received, hst.unsupported⟩
    intro hp hw
    exact hst.fresh hp (hw.imp_left fun hw => hr ▸ List.mem_cons_of_mem x hw)
  | dispatchSend x hd hlt =>
    intro t ht
    have hst := hi t ht
    by_cases hx : t.obj = x
    · subst hx
      refine ⟨hst.sending, hst.fresh, ?_, ?_, hst.unsupported⟩
      · intro hp _ hop
        obtain ⟨k, hk⟩ := List.mem_iff_getElem?.mp ht
        have hl := hc.loaded k t hk (by simp [Task.active, hp])
        exact absurd (methodOf_eq_none (hc.captured k t hk) hl.type (hc.unknown _ hd)) hop
      · intro hp
        exact (hst.received hp).setComplete
    · exact hst.other (o := x) (fun _ => hx) (fun p hp => by simp [State.setObj, hp]) (fun _ => .inr)
        (fun _ => .inr)
  | handle j h reply r hj hs hr =>
    obtain ⟨t, ht, hto, hp⟩ := hc.owner (work_pos_of_handler hj)
    have ha : t.active = true := by simp [Task.active, hp]
    refine stage_set hi hc ht ha (record_eq_set ht) ?_ (fun _ => .inr) ?_ (stage_handled hc hj hr ht hto hp)
    · intro p hne
      simp [State.setObj, hto ▸ hne]
    · intro g hg
      rcases List.mem_or_eq_of_mem_set hg with hg | rfl
      · exact .inr hg
      · exact .inl hto.symm
  | handlerSend j h hj hs hlt =>
    intro t ht
    have hst := hi t ht
    by_cases hx : t.obj = h.obj
    · refine ⟨hst.sending, ?_, ?_, ?_, hst.unsupported⟩
      · intro hp hw
        refine hst.fresh hp (hw.imp_right ?_)
        rintro ⟨g, hg, ho, hgs⟩
        exact ⟨g, List.mem_of_mem_eraseIdx hg, ho, hgs⟩
      · intro hp _
        exact (hst.answered hp (.inr ⟨h, List.mem_of_getElem? hj, hx.symm, hs⟩)).setComplete
      · intro hp
        exact (hst.received hp).setComplete
    · exact hst.other (o := h.obj) (fun _ => hx) (fun p hp => by simp [State.setObj, hp]) (fun _ => .inr)
        (fun g hg => .inr (List.mem_of_mem_eraseIdx hg))
  | sendRequest k t ht hp hlt =>
    have ha : t.active = true := by simp [Task.active, hp]
    have hst := hi t (List.mem_of_getElem? ht)
    have hw := hc.work_of_not_receiving ht ha (by simp [hp])
    obtain ⟨hh, -, -⟩ := not_working hw
    refine stage_set hi hc ht ha rfl (fun _ _ => rfl) ?_ (fun _ => .inr) ?_
    · intro p hm
      rcases List.mem_append.mp hm with hm | hm
      · exact .inr hm
      · exact .inl (List.mem_singleton.mp hm)
    · constructor
      · intro hp
        cases hp
      · intro _ _
        exact hst.sending hp
      · intro _ hg
        rcases hg with hg | ⟨g, hg, ho, -⟩
        · change 0 < (s.objs t.obj).complete at hg
          simp only [State.work] at hw
          omega
        · exact absurd ho (hh g hg)
      · intro hr
        cases hr
      · exact hst.unsupported
  | recvComplete k t ht hp hlt =>
    have ha : t.active = true := by simp [Task.active, hp]
    have hst := hi t (List.mem_of_getElem? ht)
    refine stage_set hi hc ht ha rfl ?_ (fun _ => .inr) (fun _ => .inr) ?_
    · intro p hne
      simp [State.setObj, State.setTask, hne]
    · refine ⟨?_, ?_, ?_, ?_, hst.unsupported⟩
      · intro hp
        cases hp
      · intro hp
        cases hp
      · intro hp
        cases hp
      · intro _
        exact (hst.answered hp (.inl hlt)).setComplete
  | check k t failed ht hp =>
    refine advance rfl ht (by simp [hp, TaskPc.received]) ?_ rfl rfl rfl rfl rfl rfl
    cases failed <;> exact .inl rfl
  | failComplete k t ht hp | copyRead k t ht hp | copySkip k t ht hp | finalRes k t res ht hp
  | complete k t res ht hp =>
    exact advance rfl ht (by simp [hp, TaskPc.received]) (.inl rfl) rfl rfl rfl rfl rfl rfl
  | putMsg k t ht hp =>
    exact advance rfl ht (by simp [hp, TaskPc.received]) (.inr rfl) rfl rfl rfl rfl rfl rfl

theorem stage_reach (h : machine.Reach C s) : ∀ t ∈ s.tasks, Stage s t := by
  apply h.invariant (I := fun s => ∀ t ∈ s.tasks, Stage s t)
  · rintro t ⟨iods, bufs, rfl⟩
    simp [start]
  · intro t a t' hr hi _ hs
    exact stage_step (custody_reach hr) hi (step_cases hs)

end GoUblksrv.Pool
