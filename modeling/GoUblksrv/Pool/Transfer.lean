import GoUblksrv.Pool.Outcome

/-!
The bytes that the driver gets for a read. `copy` takes as many as `Size` asked for,
whatever the handler reported, so they are the request's own only when the handler
fills `p` and returns no error.
-/

namespace GoUblksrv.Pool

variable {s s' : State} {a : Act} {t t' : Task} {C : State → Act → Prop} {k : ℕ}

/-- A handler call returns no error, and a read or a write transfers all of `p`. -/
def Faithful (s : State) : Act → Prop
  | .handle j reply => ∀ h ∈ s.handlers[j]?, reply.err = false ∧
    (h.method = .read ∨ h.method = .write → reply.n = argLen (s.objs h.obj) h.method)
  | _ => True

instance : Decidable (Faithful s a) :=
  match a with
  | .handle .. => inferInstanceAs (Decidable (∀ h ∈ s.handlers[_]?, _))
  | .deliver .. | .dispatch | .dispatchSend | .handlerSend _ | .task _ => .isTrue trivial

/-- Two requests with no result yet are not on one tag. -/
def Exclusive (s : State) : Prop :=
  ∀ (j k : ℕ) (t u : Task), s.tasks[j]? = some t → s.tasks[k]? = some u → t.commits = [] →
    u.commits = [] → t.q = u.q → t.tag = u.tag → j = k

theorem Step.commits (h : Step s a s') (hd : a.delivers = false) {k : ℕ} {t' : Task}
    (ht : s'.tasks[k]? = some t') :
    ∃ t, s.tasks[k]? = some t ∧ t'.Same t ∧ (t'.commits = [] → t.commits = []) := by
  have set : ∀ {j : ℕ} {u v : Task}, s.tasks[j]? = some u → (s.tasks.set j v)[k]? = some t' →
      v.Same u → (v.commits = [] → u.commits = []) →
      ∃ t, s.tasks[k]? = some t ∧ t'.Same t ∧ (t'.commits = [] → t.commits = []) := by
    intro j u v hu hv hs hc
    rcases List.get_set_cases hv with ⟨rfl, rfl⟩ | ⟨-, hv⟩
    · exact ⟨u, hu, hs, hc⟩
    · exact ⟨t', hv, .refl t', id⟩
  cases h with
  | deliver => cases hd
  | spawn | unknown | dispatchSend | handlerSend => exact ⟨t', ht, .refl t', id⟩
  | handle j h reply r hj hs hr =>
    obtain ⟨t, hk, rfl⟩ := record_get ht
    refine ⟨t, hk, ?_, ?_⟩
    · split_ifs <;> exact ⟨rfl, rfl, rfl, rfl, rfl, rfl⟩
    · split_ifs <;> exact id
  | failComplete j u hu | complete j u _ hu =>
    exact set hu ht ⟨rfl, rfl, rfl, rfl, rfl, rfl⟩ (by simp [Task.completeIo])
  | sendRequest j u hu | recvComplete j u hu | check j u _ hu | copyRead j u hu | copySkip j u hu
  | finalRes j u _ hu | putMsg j u hu =>
    exact set hu ht ⟨rfl, rfl, rfl, rfl, rfl, rfl⟩ id

theorem exclusive_reach (h : machine.Reach Timely s) : Exclusive s := by
  intro j k t u ht hu hct hcu hq htag
  have hj := (turn_reach h j t ht).inFlight hct
  rw [hq, htag, (turn_reach h k u hu).inFlight hcu] at hj
  exact (Option.some.inj hj).symm

theorem noError_of_faithful (hc : Faithful s a) (h : Step s a s') : NoError a = true := by
  cases h with
  | handle j h reply r hj => simp [NoError, (hc h hj).1]
  | _ => rfl

theorem faithful_timely (h : machine.Reach Faithful s) : machine.Reach Timely s :=
  (timely_reach (fun _ _ _ => noError_of_faithful) h).mono fun _ _ hc => hc.2

/-- The first `n` bytes of `b` are bytes that the request's own handler call reported. -/
def OwnBytes (t : Task) (n : ℕ) (b : ℕ → UInt8) : Prop :=
  ∃ reply, t.reply = some reply ∧ n ≤ reply.n ∧ ∀ i < n, b i = reply.p i

def TaskPc.copied : TaskPc → Bool
  | .finalRes | .complete _ => true
  | _ => false

structure Transfer (s : State) (t : Task) : Prop where
  ok : t.ownErr = false
  sound : t.failed = false
  full : ∀ reply, t.reply = some reply →
    t.opType = longhornCmdTypeRead ∨ t.opType = longhornCmdTypeWrite → reply.n = t.dataLen
  copied : ∀ x, t.copied = some x → OwnBytes t x.1 x.2
  held : t.opType = longhornCmdTypeRead → t.pc.copied = true → OwnBytes t t.dataLen (s.bufs t.q t.tag)
  committed : t.opType = longhornCmdTypeRead → ∀ c ∈ t.commits, OwnBytes t t.dataLen c.buf

theorem Transfer.keep (hi : Transfer s t)
    (hb : t.pc.copied = true → s'.bufs t.q t.tag = s.bufs t.q t.tag) : Transfer s' t :=
  ⟨hi.ok, hi.sound, hi.full, hi.copied, fun hop hp => hb hp ▸ hi.held hop hp, hi.committed⟩

theorem uncommitted (hr : t.Reported) (hf : t.failed = false)
    (hp : t.pc.copied = true ∨ t.pc = .copyOut) : t.commits = [] := by
  unfold Task.Reported at hr
  split at hr <;> simp_all [TaskPc.copied, Task.results]

theorem Custody.method_eq (hc : Custody s) {h : Handler} (hm : h ∈ s.handlers)
    (ht : s.tasks[k]? = some t) (ha : t.active = true) (ho : t.obj = h.obj) :
    (t.opType = longhornCmdTypeRead → h.method = .read) ∧
      (t.opType = longhornCmdTypeWrite → h.method = .write) := by
  have hmeth := hc.methods h hm
  rw [← ho, (hc.loaded k t ht ha).type] at hmeth
  constructor <;> intro hop <;> rw [hop] at hmeth <;> exact (Option.some.inj hmeth).symm

theorem Custody.argLen_eq (hc : Custody s) (ht : s.tasks[k]? = some t) (ha : t.active = true) :
    argLen (s.objs t.obj) .read = t.dataLen ∧
      (t.opType = longhornCmdTypeWrite → argLen (s.objs t.obj) .write = t.dataLen) := by
  have hl := hc.loaded k t ht ha
  refine ⟨?_, ?_⟩
  · rw [argLen, hl.size, (hc.captured k t ht).dataLen, iovLen]
  · intro hop
    rw [argLen, hl.wData hop]

theorem not_failed (hst : Sticky s) (hi : ∀ t ∈ s.tasks, t.ownErr = false) (o : ℕ) :
    (s.objs o).result ≠ -1 := by
  intro hr
  obtain ⟨t, ht, -, he⟩ := mem_outcomes.mp ((hst o).mp hr)
  rw [hi t ht] at he
  cases he

theorem Transfer.handled (hi : Transfer s t) {reply : Reply} (hnone : t.reply = none)
    (hp : t.pc = .recvComplete) (herr : reply.err = false)
    (hn : t.opType = longhornCmdTypeRead ∨ t.opType = longhornCmdTypeWrite → reply.n = t.dataLen) :
    Transfer s { t with reply := some reply } := by
  have hempty : ∀ {n b}, ¬ OwnBytes t n b := by
    rintro n b ⟨r, hr, -⟩
    rw [hnone] at hr
    cases hr
  constructor
  · simpa [Task.ownErr] using herr
  · exact hi.sound
  · intro r hr hop
    cases hr
    exact hn hop
  · intro x hx
    exact absurd (hi.copied x hx) hempty
  · intro _ hcp
    simp [hp, TaskPc.copied] at hcp
  · intro hop c hc
    exact absurd (hi.committed hop c hc) hempty

theorem Transfer.copyOut (hi : Transfer s t) {reply : Reply} {r : Request}
    (hreply : t.reply = some reply) (hn : reply.n = t.dataLen) (hlen : r.rLen = t.dataLen)
    (hdata : ∀ i < t.dataLen, r.rData i = reply.p i)
    (hbuf : s'.bufs t.q t.tag = Pool.copyOut (s.bufs t.q t.tag) t.dataLen r) :
    Transfer s' { t with pc := .finalRes, copied := some (min t.dataLen r.rLen, r.rData) } := by
  constructor
  · exact hi.ok
  · exact hi.sound
  · exact hi.full
  · rintro x hx
    cases hx
    refine ⟨reply, hreply, ?_, ?_⟩
    · simp [hlen, hn]
    · simpa [hlen] using hdata
  · intro _ _
    refine ⟨reply, hreply, ?_, ?_⟩
    · exact hn.ge
    · intro i hlt
      change s'.bufs t.q t.tag i = reply.p i
      rw [hbuf, Pool.copyOut, hlen, Nat.min_self, if_pos hlt]
      exact hdata i hlt
  · exact hi.committed

theorem transfer_step (hc : Custody s) (hst : ∀ t ∈ s.tasks, Stage s t)
    (hrep : ∀ t ∈ s.tasks, Report s t) (hx : Exclusive s) (hsticky : Sticky s)
    (hi : ∀ t ∈ s.tasks, Transfer s t) (hcond : Faithful s a ∧ Timely s a) (h : Step s a s') :
    ∀ t ∈ s'.tasks, Transfer s' t := by
  have set : ∀ {u : State} {k : ℕ} {t t' : Task}, u.tasks = s.tasks.set k t' → u.bufs = s.bufs →
      s.tasks[k]? = some t → (Transfer s t → Transfer s t') → ∀ v ∈ u.tasks, Transfer u v := by
    intro u k t t' htasks hb ht hn v hv
    rw [htasks] at hv
    rcases List.mem_or_eq_of_mem_set hv with hv | rfl
    · exact (hi v hv).keep fun _ => by rw [hb]
    · exact (hn (hi t (List.mem_of_getElem? ht))).keep fun _ => by rw [hb]
  cases h with
  | deliver q tag iod buf i x his hfr hx =>
    intro t ht
    rcases List.mem_append.mp ht with hm | hm
    · apply (hi t hm).keep
      intro hp
      have hn := uncommitted (hrep t hm).reported (hi t hm).sound (.inl hp)
      exact update_tag fun hq htag => (hrep t hm).reported.commits_ne_nil (hcond.2 t hm hq htag) hn
    · rw [List.mem_singleton.mp hm]
      exact ⟨rfl, rfl, by simp, by simp, by simp [TaskPc.copied], by simp⟩
  | spawn | unknown | dispatchSend | handlerSend => exact fun t ht => (hi t ht).keep fun _ => rfl
  | handle j h reply r hj hs hr =>
    have hmem := List.mem_of_getElem? hj
    obtain ⟨t, ht, hto, hp⟩ := hc.owner (work_pos_of_handler hj)
    have ha : t.active = true := by simp [Task.active, hp]
    obtain ⟨herr, hn⟩ := hcond.1 h hj
    have hnone := (hst t (List.mem_of_getElem? ht)).fresh hp (.inr ⟨h, hmem, hto.symm, hs⟩)
    have hfull : t.opType = longhornCmdTypeRead ∨ t.opType = longhornCmdTypeWrite →
        reply.n = t.dataLen := by
      intro hop
      obtain ⟨hread, hwrite⟩ := hc.method_eq hmem ht ha hto
      obtain ⟨hlr, hlw⟩ := hc.argLen_eq ht ha
      rcases hop with hop | hop
      · rw [hn (.inl (hread hop)), hread hop, ← hto]
        exact hlr
      · rw [hn (.inr (hwrite hop)), hwrite hop, ← hto]
        exact hlw hop
    exact set (record_eq_set ht) rfl ht fun hold => hold.handled hnone hp herr hfull
  | check k t failed ht hp hf =>
    refine set rfl rfl ht ?_
    intro hold
    have hres := not_failed hsticky (fun t ht => (hi t ht).ok) t.obj
    have hff : failed = false := by rw [hf, decide_eq_false hres]
    subst hff
    exact ⟨hold.ok, rfl, hold.full, hold.copied, by simp [TaskPc.copied], hold.committed⟩
  | failComplete k t ht hp =>
    exfalso
    have hr := (hrep t (List.mem_of_getElem? ht)).reported
    simp only [Task.Reported, hp, (hi t (List.mem_of_getElem? ht)).sound] at hr
    simp at hr
  | copyRead k t ht hp hop =>
    have hmem := List.mem_of_getElem? ht
    have hold := hi t hmem
    obtain ⟨reply, hreply, hread⟩ := (hst t hmem).received (by simp [hp, TaskPc.received])
      (by rw [hop]; decide)
    obtain ⟨hlen, hdata⟩ := hread hop
    have hsz : (s.objs t.obj).size.toNat = t.dataLen :=
      (hc.argLen_eq ht (by simp [Task.active, hp])).1
    rw [hsz] at hlen hdata
    have hn := uncommitted (hrep t hmem).reported hold.sound (.inr hp)
    intro u hu
    obtain ⟨j, hj⟩ := List.mem_iff_getElem?.mp hu
    rcases List.get_set_cases hj with ⟨rfl, rfl⟩ | ⟨hne, hj⟩
    · apply hold.copyOut hreply (hold.full reply hreply (.inl hop)) hlen hdata
      simp
    · have hmu := List.mem_of_getElem? hj
      apply (hi u hmu).keep
      intro hcp
      have hnu := uncommitted (hrep u hmu).reported (hi u hmu).sound (.inl hcp)
      exact update_tag fun hq htag => hne (hx j k u t hj ht hnu hn hq htag)
  | complete k t res ht hp =>
    refine set rfl rfl ht ?_
    intro hold
    refine ⟨hold.ok, hold.sound, hold.full, hold.copied, by simp [Task.completeIo, TaskPc.copied], ?_⟩
    intro hop c hcm
    rcases List.mem_append.mp hcm with hcm | hcm
    · exact hold.committed hop c hcm
    · rw [List.mem_singleton.mp hcm]
      exact hold.held hop (by simp [hp, TaskPc.copied])
  | finalRes k t res ht hp =>
    refine set rfl rfl ht ?_
    intro hold
    exact ⟨hold.ok, hold.sound, hold.full, hold.copied,
      fun hop _ => hold.held hop (by simp [hp, TaskPc.copied]), hold.committed⟩
  | copySkip k t ht hp hop =>
    refine set rfl rfl ht ?_
    intro hold
    exact ⟨hold.ok, hold.sound, hold.full, hold.copied, fun h => absurd h hop, hold.committed⟩
  | sendRequest k t ht hp | recvComplete k t ht hp | putMsg k t ht hp =>
    refine set rfl rfl ht ?_
    intro hold
    exact ⟨hold.ok, hold.sound, hold.full, hold.copied, by simp [TaskPc.copied], hold.committed⟩

theorem transfer_reach (h : machine.Reach Faithful s) : ∀ t ∈ s.tasks, Transfer s t := by
  apply (timely_reach (fun _ _ _ => noError_of_faithful) h).invariant (I := fun s => ∀ t ∈ s.tasks, Transfer s t)
  · rintro t ⟨iods, bufs, rfl⟩
    simp [start]
  · intro t a t' hr hi hcond hs
    have htimely : machine.Reach Timely t := hr.mono fun _ _ hc => hc.2
    exact transfer_step (custody_reach hr) (stage_reach hr) (report_reach htimely) (exclusive_reach htimely)
      (sticky_reach hr) hi hcond (step_cases hs)

structure OwnTransfer (t : Task) : Prop where
  read : ublksrvGetOp t.iod = ublkIoOpRead → ∀ c ∈ t.commits, 0 ≤ c.res.toInt →
    OwnBytes t c.res.toInt.toNat c.buf
  write : ublksrvGetOp t.iod = ublkIoOpWrite → ∀ c ∈ t.commits, 0 ≤ c.res.toInt →
    ∃ reply, t.reply = some reply ∧ c.res.toInt ≤ reply.n
  copied : ∀ x, t.copied = some x → OwnBytes t x.1 x.2

theorem results_sound (h : t.Reported) (hf : t.failed = false) {c : Commit} (hc : c ∈ t.commits) :
    t.pc.decided = true ∧ c.res = t.finalRes := by
  have hm : c.res ∈ t.results := List.mem_map_of_mem hc
  unfold Task.Reported at h
  split at h <;> simp_all [TaskPc.decided]

theorem finalRes_dataLen (hc : t.Captured)
    (hop : ublksrvGetOp t.iod = ublkIoOpRead ∨ ublksrvGetOp t.iod = ublkIoOpWrite) :
    t.finalRes.toInt = t.dataLen := by
  have hne : t.opType ≠ longhornCmdTypeUnmap := by
    rw [hc.opType, reqToLonghornCmdType]
    rcases hop with hop | hop <;> rw [hop] <;> decide
  rw [Task.finalRes, if_neg hne, hc.dataLen, iovLen, getNrSectors]
  exact shifted_toInt (issued_nrSectors hc.issued hop)

theorem ownTransfer (h : machine.Reach Faithful s) (ht : t ∈ s.tasks) : OwnTransfer t := by
  obtain ⟨k, hk⟩ := List.mem_iff_getElem?.mp ht
  have hcap := (custody_reach h).captured k t hk
  have htr := transfer_reach h t ht
  have hrep := (report_reach (faithful_timely h) t ht).reported
  refine ⟨?_, ?_, htr.copied⟩
  · intro hop c hc _
    have hread : t.opType = longhornCmdTypeRead := by rw [hcap.opType, reqToLonghornCmdType, if_pos hop]
    rw [(results_sound hrep htr.sound hc).2, finalRes_dataLen hcap (.inl hop), Int.toNat_natCast]
    exact htr.committed hread c hc
  · intro hop c hc _
    obtain ⟨hdec, hres⟩ := results_sound hrep htr.sound hc
    have hwrite : t.opType = longhornCmdTypeWrite := by
      rw [hcap.opType, reqToLonghornCmdType, hop]
      decide
    obtain ⟨reply, hreply⟩ := Option.isSome_iff_exists.mp
      ((verdict_reach h k t hk hdec).called (by rw [hwrite]; decide))
    refine ⟨reply, hreply, ?_⟩
    rw [hres, finalRes_dataLen hcap (.inr hop), htr.full reply hreply (.inr hwrite)]

theorem own_bytes : ∀ s₁, machine.Reach Faithful s₁ →
    (∀ t ∈ s₁.tasks, OwnTransfer t) ∧
    ∀ s₂, machine.Reach Faithful s₂ →
      ∀ t₁ ∈ s₁.tasks, ∀ t₂ ∈ s₂.tasks, ublksrvGetOp t₁.iod = ublkIoOpRead →
      ublksrvGetOp t₂.iod = ublkIoOpRead → t₁.reply = t₂.reply →
      ∀ c₁ ∈ t₁.commits, ∀ c₂ ∈ t₂.commits, c₁.res = c₂.res → 0 ≤ c₁.res.toInt →
      ∀ i < c₁.res.toInt.toNat, c₁.buf i = c₂.buf i := by
  intro s₁ h₁
  refine ⟨fun t ht => ownTransfer h₁ ht, ?_⟩
  intro s₂ h₂ t₁ ht₁ t₂ ht₂ hop₁ hop₂ hreply c₁ hc₁ c₂ hc₂ hres hnn i hi
  obtain ⟨r₁, hr₁, -, hb₁⟩ := (ownTransfer h₁ ht₁).read hop₁ c₁ hc₁ hnn
  obtain ⟨r₂, hr₂, -, hb₂⟩ := (ownTransfer h₂ ht₂).read hop₂ c₂ hc₂ (hres ▸ hnn)
  have hr : r₁ = r₂ := Option.some.inj (hr₁.symm.trans (hreply.trans hr₂))
  rw [hb₁ i hi, hb₂ i (hres ▸ hi), hr]

set_option maxRecDepth 8000

def faithfulReadDone : State :=
  (machine.runIf (fun s a => decide (Faithful s a)) (start (fun _ _ => ⟨0, 0, 0, 0⟩) fun _ _ _ => 0)
    (servedRead fullReply)).get (by decide)

theorem faithfulReadDone_reach : machine.Reach Faithful faithfulReadDone :=
  .of_runIf (.init ⟨_, _, rfl⟩) (fun _ _ => of_decide_eq_true) (Option.some_get _).symm

def otherReply : Reply := ⟨4096, false, fun _ => 9⟩

/-- A read with other bytes comes first, and its object is used again. -/
def reusedReadDone : State :=
  (machine.runIf (fun s a => decide (Faithful s a)) (start (fun _ _ => ⟨0, 0, 0, 0⟩) fun _ _ _ => 0)
    (servedRead otherReply ++ [.task 0, .deliver 0 0 readIod (fun _ => 0) 511, .task 1, .dispatch,
      .handle 0 fullReply, .handlerSend 0] ++ List.replicate 5 (.task 1))).get (by decide)

theorem reusedReadDone_reach : machine.Reach Faithful reusedReadDone :=
  .of_runIf (.init ⟨_, _, rfl⟩) (fun _ _ => of_decide_eq_true) (Option.some_get _).symm

theorem own_bytes_reusedReadDone :
    (∀ t ∈ reusedReadDone.tasks, OwnTransfer t) ∧
      ∀ c₁ ∈ (reusedReadDone.tasks.getLast (by decide)).commits,
      ∀ c₂ ∈ (faithfulReadDone.tasks.head (by decide)).commits, c₁.res = c₂.res → 0 ≤ c₁.res.toInt →
      ∀ i < c₁.res.toInt.toNat, c₁.buf i = c₂.buf i :=
  ⟨(own_bytes _ reusedReadDone_reach).1,
    (own_bytes _ reusedReadDone_reach).2 _ faithfulReadDone_reach _ (List.getLast_mem _) _
      (List.head_mem _) rfl rfl rfl⟩

def noReply : Reply := ⟨0, false, fun _ => 1⟩

/-- The second read gets the object of the first one, and its handler leaves `p` as it is. -/
def staleReadDone : State :=
  (runFrom (servedRead fullReply ++ [.task 0, .deliver 0 0 readIod (fun _ => 0) 511, .task 1, .dispatch,
    .handle 0 noReply, .handlerSend 0] ++ List.replicate 5 (.task 1))).get (by decide)

theorem own_bytes_staleRead :
    ¬ ∀ s, machine.Reach Machine.Free s → ∀ t ∈ s.tasks, OwnTransfer t := by
  intro h
  have hr : machine.Reach Machine.Free staleReadDone :=
    runFrom_reach (fun _ _ _ => trivial) (Option.some_get _).symm
  have ht : staleReadDone.tasks.getLast (by decide) ∈ staleReadDone.tasks := List.getLast_mem _
  obtain ⟨reply, hreply, hn, -⟩ := (h staleReadDone hr _ ht).read rfl _ (List.head_mem (by decide))
    (by decide)
  cases hreply.symm.trans (rfl : _ = some noReply)
  exact absurd hn (by decide)

end GoUblksrv.Pool
