import GoUblksrv.Lib.ListCount
import GoUblksrv.Pool.Inversion

/-!
Who has a `Request`. Each of the objects that `Start` allocates is either once in
`msgChan` or with one completion goroutine; while the goroutine waits for `Complete`, the
object is in one of the places that lead to a token there, and otherwise in none.
-/

namespace GoUblksrv.Pool

variable {s s' : State} {a : Act} {t t' : Task} {C : State → Act → Prop}

def Task.active (t : Task) : Bool :=
  match t.pc with
  | .ended => false
  | _ => true

def Task.receives (t : Task) : Bool :=
  match t.pc with
  | .recvComplete => true
  | _ => false

def State.users (s : State) (o : ℕ) : ℕ := s.tasks.countP fun t => t.active && t.obj == o

def State.receivers (s : State) (o : ℕ) : ℕ := s.tasks.countP fun t => t.receives && t.obj == o

/-- The places between the send on `requests` and the token on `Complete`. -/
def State.work (s : State) (o : ℕ) : ℕ :=
  s.requests.count o + (s.dispatching == some o).toNat + s.handlers.countP (fun h => h.obj == o) +
    (s.objs o).complete

structure Task.Same (t u : Task) : Prop where
  q : t.q = u.q
  tag : t.tag = u.tag
  opType : t.opType = u.opType
  dataLen : t.dataLen = u.dataLen
  obj : t.obj = u.obj
  iod : t.iod = u.iod

structure Request.Same (r u : Request) : Prop where
  type : r.type = u.type
  size : r.size = u.size
  wData : r.wData = u.wData
  rid : r.rid = u.rid

theorem Task.Same.refl (t : Task) : t.Same t := ⟨rfl, rfl, rfl, rfl, rfl, rfl⟩

theorem Request.Same.refl (r : Request) : r.Same r := ⟨rfl, rfl, rfl, rfl⟩

/-- What every step but a delivery keeps. -/
structure Frame (s s' : State) : Prop where
  tasks : ∀ (k : ℕ) (t' : Task), s'.tasks[k]? = some t' →
    ∃ t : Task, s.tasks[k]? = some t ∧ t'.Same t ∧ (t'.active = true → t.active = true)
  objs : ∀ o, (s'.objs o).Same (s.objs o)

structure Ran (r r' : Request) (m : Method) (reply : Reply) : Prop where
  same : r'.Same r
  complete : r'.complete = r.complete
  result : m ≠ .ping → r'.result = if reply.err then -1 else r.result
  read : m = .read → reply.n ≤ r.size.toNat ∧ r'.rLen = r.size.toNat ∧
    ∀ i < r.size.toNat, r'.rData i = reply.p i
  write : m = .write → reply.n ≤ r.wData.len

theorem runMethod_ran {r r' : Request} {m : Method} {reply : Reply}
    (h : runMethod r m reply = some r') : Ran r r' m reply := by
  cases m with
  | read =>
    by_cases hc : r.size.toNat ≤ rDataCap ∧ reply.n ≤ argLen r .read
    · simp only [runMethod, if_pos hc, Option.some.injEq] at h
      subst h
      exact ⟨⟨rfl, rfl, rfl, rfl⟩, rfl, fun _ => rfl, fun _ => ⟨hc.2, rfl, fun i hi => by simp [hi]⟩,
        by simp⟩
    · simp only [runMethod, if_neg hc] at h
      cases h
  | write =>
    by_cases hc : reply.n ≤ argLen r .write
    · simp only [runMethod, if_pos hc, Option.some.injEq] at h
      subst h
      exact ⟨⟨rfl, rfl, rfl, rfl⟩, rfl, fun _ => rfl, by simp, fun _ => hc⟩
    · simp only [runMethod, if_neg hc] at h
      cases h
  | unmap =>
    cases h
    exact ⟨⟨rfl, rfl, rfl, rfl⟩, rfl, fun _ => rfl, by simp, by simp⟩
  | ping =>
    cases h
    exact ⟨⟨rfl, rfl, rfl, rfl⟩, rfl, by simp, by simp, by simp⟩

theorem setObj_same {o : ℕ} {r : Request} (h : r.Same (s.objs o)) (p : ℕ) :
    ((s.setObj o r).objs p).Same (s.objs p) := by
  by_cases hp : p = o
  · subst hp
    simpa [State.setObj] using h
  · simpa [State.setObj, hp] using Request.Same.refl _

theorem setObj_field {β : Type*} (f : Request → β) {o : ℕ} {r : Request} (h : f r = f (s.objs o))
    (p : ℕ) : f ((s.setObj o r).objs p) = f (s.objs p) := by
  by_cases hp : p = o
  · subst hp
    simpa [State.setObj] using h
  · simp [State.setObj, hp]

theorem onRequestAsync_complete {q tag x i : ℕ} {iod : IoDesc} (o : ℕ) :
    ((onRequestAsync s q tag iod x i).objs o).complete = (s.objs o).complete := by
  apply setObj_field Request.complete
  rfl

theorem frame_set {k : ℕ} (ht : s.tasks[k]? = some t) (hs : t'.Same t)
    (ha : t'.active = true → t.active = true) (j : ℕ) (u : Task)
    (hu : (s.tasks.set k t')[j]? = some u) :
    ∃ v, s.tasks[j]? = some v ∧ u.Same v ∧ (u.active = true → v.active = true) := by
  rcases List.get_set_cases hu with ⟨rfl, rfl⟩ | ⟨-, hj⟩
  · exact ⟨t, ht, hs, ha⟩
  · exact ⟨u, hj, .refl u, id⟩

theorem frame_refl (j : ℕ) (u : Task) (hu : s.tasks[j]? = some u) :
    ∃ v, s.tasks[j]? = some v ∧ u.Same v ∧ (u.active = true → v.active = true) :=
  ⟨u, hu, .refl u, id⟩

theorem record_get {o k : ℕ} {reply : Reply} {u : Task} (h : (s.record o reply)[k]? = some u) :
    ∃ t, s.tasks[k]? = some t ∧
      u = if (s.objs o).rid = k then { t with reply := some reply } else t := by
  rw [State.record, List.getElem?_modify] at h
  obtain ⟨t, ht, rfl⟩ := Option.map_eq_some_iff.mp h
  exact ⟨t, ht, rfl⟩

def Act.delivers : Act → Bool
  | .deliver .. => true
  | _ => false

theorem Step.frame (h : Step s a s') (hd : a.delivers = false) : Frame s s' := by
  cases h with
  | deliver => simp [Act.delivers] at hd
  | spawn | unknown => exact ⟨frame_refl, fun o => .refl _⟩
  | dispatchSend o | handlerSend j h => exact ⟨frame_refl, setObj_same ⟨rfl, rfl, rfl, rfl⟩⟩
  | handle j h reply r hj hs hr =>
    refine ⟨fun k u hu => ?_, setObj_same (runMethod_ran hr).same⟩
    obtain ⟨t, ht, rfl⟩ := record_get hu
    refine ⟨t, ht, ?_, ?_⟩
    · split_ifs <;> exact ⟨rfl, rfl, rfl, rfl, rfl, rfl⟩
    · split_ifs <;> exact id
  | recvComplete k t ht hp hc =>
    exact ⟨frame_set ht ⟨rfl, rfl, rfl, rfl, rfl, rfl⟩ (by simp [Task.active, hp]),
      setObj_same ⟨rfl, rfl, rfl, rfl⟩⟩
  | check k t failed ht hp | sendRequest k t ht hp | failComplete k t ht hp | copyRead k t ht hp
  | copySkip k t ht hp | finalRes k t res ht hp | complete k t res ht hp | putMsg k t ht hp =>
    exact ⟨frame_set ht ⟨rfl, rfl, rfl, rfl, rfl, rfl⟩ (by simp [Task.active, hp]), fun o => .refl _⟩

theorem setObj_complete {o : ℕ} {r : Request} (p : ℕ) :
    ((s.setObj o r).objs p).complete = if p = o then r.complete else (s.objs p).complete := by
  by_cases hp : p = o <;> simp [State.setObj, hp]

theorem countP_record {o : ℕ} {reply : Reply} {p : Task → Bool}
    (h : ∀ t r, p { t with reply := r } = p t) :
    (s.record o reply).countP p = s.tasks.countP p :=
  List.countP_modify _ fun t => h t (some reply)

theorem places_step (h : Step s a s') (o : ℕ) :
    s'.msgChan.count o + s'.users o = s.msgChan.count o + s.users o := by
  cases h with
  | deliver q tag iod buf i x hi hf hx =>
    have hc := List.countP_eraseIdx_of_get (p := (· == o)) hx
    simp only [onRequestAsync, State.users, List.countP_append, List.countP_singleton, List.count,
      Task.active] at hc ⊢
    cases hxo : x == o <;> simp [hxo] at hc ⊢ <;> omega
  | handle j h reply r hj hs hr =>
    simp only [State.users]
    rw [countP_record]
    · rfl
    · intro t r
      rfl
  | check k t failed ht hp =>
    refine congrArg (s.msgChan.count o + ·) (List.countP_set_keep ht ?_)
    cases failed <;> simp [Task.active, hp]
  | sendRequest k t ht hp | recvComplete k t ht hp | failComplete k t ht hp | copyRead k t ht hp
  | copySkip k t ht hp | finalRes k t res ht hp | complete k t res ht hp =>
    refine congrArg (s.msgChan.count o + ·) (List.countP_set_keep ht ?_)
    simp [Task.active, Task.completeIo, hp]
  | putMsg k t ht hp hc =>
    have hc := List.countP_set_of_get (b := { t with pc := .ended })
      (p := fun t => t.active && t.obj == o) ht
    simp only [State.users, State.setTask, List.count_append, List.count_singleton]
    cases ho : t.obj == o <;> simp [Task.active, hp, ho] at hc ⊢ <;> omega
  | _ => rfl

theorem work_step {o : ℕ} (hw : s.work o = s.receivers o) (h : Step s a s') :
    s'.work o = s'.receivers o := by
  cases h with
  | deliver q tag iod buf i x hi hf hx =>
    have hc : ((onRequestAsync s q tag iod x i).objs o).complete = (s.objs o).complete :=
      onRequestAsync_complete o
    simp only [State.work, State.receivers] at hw ⊢
    rw [hc]
    simpa [onRequestAsync, State.setObj, List.countP_append, Task.receives] using hw
  | spawn x rest m hd hr hm =>
    simp only [State.work, State.receivers, hr, hd] at hw ⊢
    simp only [List.count_cons, List.countP_append, List.countP_singleton] at hw ⊢
    split_ifs at hw ⊢ <;> omega
  | unknown x rest hd hr hm =>
    simp only [State.work, State.receivers, hr, hd] at hw ⊢
    simp only [List.count_cons] at hw
    cases ho : x == o <;> simp [ho] at hw ⊢ <;> omega
  | dispatchSend x hd hc =>
    simp only [State.work, State.receivers, hd, setObj_complete] at hw ⊢
    change _ = s.tasks.countP _
    by_cases ho : o = x
    · subst ho
      simp [State.setObj] at hw ⊢
      omega
    · have hb : (x == o) = false := by simpa using Ne.symm ho
      simp [State.setObj, ho, hb] at hw ⊢
      omega
  | handle j h reply r hj hs hr =>
    have hset := List.countP_set_keep (b := { h with sending := true }) (p := fun h => h.obj == o) hj rfl
    have hrec : (s.record h.obj reply).countP (fun t => t.receives && t.obj == o) = s.receivers o :=
      countP_record fun t r => rfl
    have hc := setObj_field Request.complete (runMethod_ran hr).complete o
    simp only [State.work, State.receivers] at hw ⊢
    rw [hset, hrec, hc]
    exact hw
  | handlerSend j h hj hs hlt =>
    have hc := List.countP_eraseIdx_of_get (p := fun h => h.obj == o) hj
    simp only [State.work, State.receivers, setObj_complete] at hw ⊢
    change _ = s.tasks.countP _
    by_cases ho : o = h.obj
    · subst ho
      simp [State.setObj] at hw hc ⊢
      omega
    · have hb : (h.obj == o) = false := by simpa using Ne.symm ho
      simp [State.setObj, ho, hb] at hw hc ⊢
      omega
  | sendRequest k t ht hp =>
    have hc := List.countP_set_of_get (b := { t with pc := .recvComplete })
      (p := fun t => t.receives && t.obj == o) ht
    simp only [State.work, State.receivers, State.setTask, List.count_append, List.count_singleton] at hw ⊢
    cases ho : t.obj == o <;> simp [Task.receives, hp, ho] at hc hw ⊢ <;> omega
  | recvComplete k t ht hp hlt =>
    have hc := List.countP_set_of_get (b := { t with pc := .check })
      (p := fun t => t.receives && t.obj == o) ht
    simp only [State.work, State.receivers, setObj_complete] at hw ⊢
    by_cases ho : o = t.obj
    · subst ho
      simp [State.setTask, State.setObj, Task.receives, hp] at hw hc ⊢
      omega
    · have hb : (t.obj == o) = false := by simpa using Ne.symm ho
      simp [State.setTask, State.setObj, Task.receives, hp, ho, hb] at hw hc ⊢
      omega
  | check k t failed ht hp =>
    refine hw.trans (List.countP_set_keep ht ?_).symm
    cases failed <;> simp [Task.receives, hp]
  | failComplete k t ht hp | copyRead k t ht hp
  | copySkip k t ht hp | finalRes k t res ht hp | complete k t res ht hp | putMsg k t ht hp =>
    refine hw.trans (List.countP_set_keep ht ?_).symm
    simp [Task.receives, Task.completeIo, hp]

theorem receivers_le_users (s : State) (o : ℕ) : s.receivers o ≤ s.users o := by
  apply List.countP_mono_left
  intro t _ ht
  rw [Bool.and_eq_true] at ht ⊢
  refine ⟨?_, ht.2⟩
  have hr := ht.1
  unfold Task.receives at hr
  unfold Task.active
  split <;> simp_all

/-- What `onRequestAsync` wrote into the object is what the goroutine captured. -/
structure Loaded (r : Request) (t : Task) : Prop where
  type : r.type = t.opType.toUInt32
  size : r.size = t.iod.nrSectors <<< 9
  wData : t.opType = longhornCmdTypeWrite → r.wData = ⟨t.q, t.tag, t.dataLen⟩

structure Task.Captured (t : Task) : Prop where
  opType : t.opType = reqToLonghornCmdType t.iod
  dataLen : t.dataLen = iovLen t.iod
  issued : issued t.iod = true

structure Custody (s : State) : Prop where
  place : ∀ o, s.msgChan.count o + s.users o = (List.range 512).count o
  work : ∀ o, s.work o = s.receivers o
  rid : ∀ (k : ℕ) (t : Task), s.tasks[k]? = some t → t.active = true → (s.objs t.obj).rid = k
  last : ∀ (k : ℕ) (t : Task), s.tasks[k]? = some t → k ≤ (s.objs t.obj).rid
  loaded : ∀ (k : ℕ) (t : Task), s.tasks[k]? = some t → t.active = true → Loaded (s.objs t.obj) t
  captured : ∀ (k : ℕ) (t : Task), s.tasks[k]? = some t → t.Captured
  methods : ∀ h ∈ s.handlers, methodOf (s.objs h.obj).type = some h.method
  unknown : ∀ o, s.dispatching = some o → methodOf (s.objs o).type = none

section

variable {o : ℕ}

theorem Custody.le_one (h : Custody s) (o : ℕ) : s.msgChan.count o + s.users o ≤ 1 := by
  rw [h.place]
  exact List.nodup_iff_count_le_one.mp List.nodup_range o

theorem Custody.idle (h : Custody s) (ho : o ∈ s.msgChan) : s.users o = 0 ∧ s.work o = 0 := by
  have hpos := List.count_pos_iff.mpr ho
  have hone := h.le_one o
  have hle := receivers_le_users s o
  have hw := h.work o
  omega

theorem not_active_of_idle (h : s.users o = 0) : ∀ t ∈ s.tasks, t.obj = o → t.active = false := by
  intro t ht hto
  rw [State.users, List.countP_eq_zero] at h
  by_contra ha
  exact h t ht (by simp [hto, Bool.not_eq_false _ ▸ ha])

theorem Custody.not_free (hi : Custody s) (ho : o ∈ s.msgChan) (ht : t ∈ s.tasks)
    (ha : t.active = true) : t.obj ≠ o := by
  intro hto
  rw [not_active_of_idle (hi.idle ho).1 t ht hto] at ha
  cases ha

theorem not_working (h : s.work o = 0) :
    (∀ h ∈ s.handlers, h.obj ≠ o) ∧ s.dispatching ≠ some o ∧ o ∉ s.requests := by
  simp only [State.work, Nat.add_eq_zero_iff, List.countP_eq_zero, beq_iff_eq] at h
  obtain ⟨⟨⟨hr, hd⟩, hh⟩, -⟩ := h
  refine ⟨hh, ?_, List.count_eq_zero.mp hr⟩
  intro he
  simp [he] at hd

end

theorem Custody.quiet (hi : Custody s) (h : Step s a s') (hf : Frame s s')
    (hm : ∀ h ∈ s'.handlers, methodOf (s'.objs h.obj).type = some h.method)
    (hu : ∀ o, s'.dispatching = some o → methodOf (s'.objs o).type = none) : Custody s' where
  place o := (places_step h o).trans (hi.place o)
  work o := work_step (hi.work o) h
  rid k t ht ha := by
    obtain ⟨u, hk, hs, hact⟩ := hf.tasks k t ht
    rw [hs.obj, (hf.objs _).rid]
    exact hi.rid k u hk (hact ha)
  last k t ht := by
    obtain ⟨u, hk, hs, -⟩ := hf.tasks k t ht
    rw [hs.obj, (hf.objs _).rid]
    exact hi.last k u hk
  loaded k t ht ha := by
    obtain ⟨u, hk, hs, hact⟩ := hf.tasks k t ht
    obtain ⟨ht, hsz, hw⟩ := hi.loaded k u hk (hact ha)
    have ho := hf.objs u.obj
    refine ⟨?_, ?_, ?_⟩
    · rw [hs.obj, ho.type, hs.opType, ht]
    · rw [hs.obj, ho.size, hs.iod, hsz]
    · intro hop
      rw [hs.obj, ho.wData, hs.q, hs.tag, hs.dataLen]
      exact hw (hs.opType ▸ hop)
  captured k t ht := by
    obtain ⟨u, hk, hs, -⟩ := hf.tasks k t ht
    obtain ⟨ho, hd, hiss⟩ := hi.captured k u hk
    exact ⟨by rw [hs.opType, hs.iod, ho], by rw [hs.dataLen, hs.iod, hd], hs.iod ▸ hiss⟩
  methods := hm
  unknown := hu

/-- The goroutine that a delivery starts. -/
structure Task.Started (t : Task) (q tag : ℕ) (iod : IoDesc) (o : ℕ) : Prop where
  q : t.q = q
  tag : t.tag = tag
  obj : t.obj = o
  opType : t.opType = reqToLonghornCmdType iod
  dataLen : t.dataLen = iovLen iod
  iod : t.iod = iod

section

variable {q tag x i : ℕ} {iod : IoDesc}

theorem onRequestAsync_get {k : ℕ} (h : (onRequestAsync s q tag iod x i).tasks[k]? = some t) :
    s.tasks[k]? = some t ∨ k = s.tasks.length ∧ t.Started q tag iod x := by
  change (s.tasks ++ [_])[k]? = some t at h
  rcases List.get_append_cases h with h | ⟨hk, rfl⟩
  · exact .inl h
  · exact .inr ⟨hk, rfl, rfl, rfl, rfl, rfl, rfl⟩

theorem onRequestAsync_objs {o : ℕ} (ho : o ≠ x) :
    (onRequestAsync s q tag iod x i).objs o = s.objs o := by
  simp [onRequestAsync, State.setObj, ho]

theorem onRequestAsync_loaded :
    (onRequestAsync s q tag iod x i).objs x = load (s.objs x) q tag iod s.tasks.length := by
  simp [onRequestAsync, State.setObj]

theorem Task.Started.captured (h : t.Started q tag iod x) (hiss : issued iod = true) : t.Captured :=
  ⟨by rw [h.opType, h.iod], by rw [h.dataLen, h.iod], by rw [h.iod, hiss]⟩

theorem Task.Started.loaded (h : t.Started q tag iod x) (r : Request) (n : ℕ) :
    Loaded (load r q tag iod n) t := by
  constructor
  · simp [load, h.opType]
  · simp [load, longhornBuildReq, htole32, h.iod]
  · intro hw
    rw [h.opType] at hw
    simp [load, hw, h.q, h.tag, h.dataLen]

theorem Custody.deliver {buf : ℕ → UInt8} (hi : Custody s) (h : Step s (.deliver q tag iod buf i) s') :
    Custody s' := by
  have hplace := places_step h
  have hwork := fun o => work_step (hi.work o) h
  cases h with
  | deliver _ _ _ _ _ x his hfr hx =>
    have hmem := List.mem_of_getElem? hx
    obtain ⟨hh, hd, -⟩ := not_working (hi.idle hmem).2
    have hold : ∀ {o : ℕ}, o ≠ x → (onRequestAsync s q tag iod x i).objs o = s.objs o :=
      onRequestAsync_objs
    have hnew : (onRequestAsync s q tag iod x i).objs x = load (s.objs x) q tag iod s.tasks.length :=
      onRequestAsync_loaded
    constructor
    · exact fun o => (hplace o).trans (hi.place o)
    · exact hwork
    · intro k t ht ha
      change ((onRequestAsync s q tag iod x i).objs t.obj).rid = k
      rcases onRequestAsync_get (i := i) ht with hk | ⟨rfl, hs⟩
      · rw [hold (hi.not_free hmem (List.mem_of_getElem? hk) ha)]
        exact hi.rid k t hk ha
      · rw [hs.obj, hnew]
        rfl
    · intro k t ht
      change k ≤ ((onRequestAsync s q tag iod x i).objs t.obj).rid
      rcases onRequestAsync_get (i := i) ht with hk | ⟨rfl, hs⟩
      · by_cases ho : t.obj = x
        · rw [ho, hnew]
          exact (List.getElem?_eq_some_iff.mp hk).1.le
        · rw [hold ho]
          exact hi.last k t hk
      · rw [hs.obj, hnew]
        rfl
    · intro k t ht ha
      change Loaded ((onRequestAsync s q tag iod x i).objs t.obj) t
      rcases onRequestAsync_get (i := i) ht with hk | ⟨rfl, hs⟩
      · rw [hold (hi.not_free hmem (List.mem_of_getElem? hk) ha)]
        exact hi.loaded k t hk ha
      · rw [hs.obj, hnew]
        exact hs.loaded _ _
    · intro k t ht
      rcases onRequestAsync_get (i := i) ht with hk | ⟨-, hs⟩
      · exact hi.captured k t hk
      · exact hs.captured his
    · intro h hm
      change methodOf ((onRequestAsync s q tag iod x i).objs h.obj).type = some h.method
      rw [hold (hh h hm)]
      exact hi.methods h hm
    · intro o ho
      have hox : o ≠ x := by
        rintro rfl
        exact hd ho
      change methodOf ((onRequestAsync s q tag iod x i).objs o).type = none
      rw [hold hox]
      exact hi.unknown o ho

end

theorem Custody.step (hi : Custody s) (h : Step s a s') : Custody s' := by
  have keepM : ∀ {u : State}, (∀ o, (u.objs o).Same (s.objs o)) → (∀ h ∈ u.handlers, h ∈ s.handlers) →
      ∀ h ∈ u.handlers, methodOf (u.objs h.obj).type = some h.method := by
    intro u ho hsub h hh
    rw [(ho h.obj).type]
    exact hi.methods h (hsub h hh)
  have keepU : ∀ {u : State}, (∀ o, (u.objs o).Same (s.objs o)) → u.dispatching = s.dispatching →
      ∀ o, u.dispatching = some o → methodOf (u.objs o).type = none := by
    intro u ho hd o hu
    rw [(ho o).type]
    exact hi.unknown o (hd ▸ hu)
  have hf := h.frame
  cases h with
  | deliver q tag iod buf i x his hfr hx => exact hi.deliver (.deliver q tag iod buf i x his hfr hx)
  | spawn o rest m hd hr hm =>
    have hf := hf rfl
    refine hi.quiet (.spawn o rest m hd hr hm) hf ?_ (keepU hf.objs rfl)
    intro h hh
    simp only [List.mem_append, List.mem_singleton] at hh
    rcases hh with hh | rfl
    · exact hi.methods h hh
    · exact hm
  | unknown o rest hd hr hm =>
    have hf := hf rfl
    apply hi.quiet (.unknown o rest hd hr hm) hf (keepM hf.objs fun _ h => h)
    intro x hx
    cases hx
    exact hm
  | dispatchSend o hd hc =>
    have hf := hf rfl
    exact hi.quiet (.dispatchSend o hd hc) hf (keepM hf.objs fun _ h => h) (by simp)
  | handle j h reply r hj hs hr =>
    have hf := hf rfl
    refine hi.quiet (.handle j h reply r hj hs hr) hf ?_ (keepU hf.objs rfl)
    intro g hg
    rw [(hf.objs g.obj).type]
    rcases List.mem_or_eq_of_mem_set hg with hg | rfl
    · exact hi.methods g hg
    · exact hi.methods h (List.mem_of_getElem? hj)
  | handlerSend j h hj hs hc =>
    have hf := hf rfl
    exact hi.quiet (.handlerSend j h hj hs hc) hf (keepM hf.objs fun _ h => List.mem_of_mem_eraseIdx h)
      (keepU hf.objs rfl)
  | _ =>
    have hf := hf rfl
    refine hi.quiet (by constructor <;> assumption) hf (keepM hf.objs fun _ h => h) (keepU hf.objs rfl)

theorem custody_start (iods : ℕ → ℕ → IoDesc) (bufs : ℕ → ℕ → ℕ → UInt8) :
    Custody (start iods bufs) where
  place o := by simp [start, State.users]
  work o := by simp [start, State.work, State.receivers, newRequest]
  rid := by simp [start]
  last := by simp [start]
  loaded := by simp [start]
  captured := by simp [start]
  methods := by simp [start]
  unknown := by simp [start]

theorem custody_reach (h : machine.Reach C s) : Custody s := by
  refine h.invariant ?_ fun t a t' _ hi _ hs => hi.step (step_cases hs)
  rintro t ⟨iods, bufs, rfl⟩
  exact custody_start iods bufs

end GoUblksrv.Pool
