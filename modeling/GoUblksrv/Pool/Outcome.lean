import GoUblksrv.Pool.Turns

/-!
The result that the driver gets for a request. `Result` is never reset, so what a completion
goroutine reads there is whether any request so far on its object has failed.
-/

namespace GoUblksrv.Pool

variable {s s' : State} {a : Act} {t t' : Task} {C : State → Act → Prop} {o k : ℕ}

def Task.ownErr (t : Task) : Bool := t.reply.any fun r => r.err

def Task.outcome (t : Task) : ℕ × Bool := (t.obj, t.ownErr)

def State.outcomes (s : State) : List (ℕ × Bool) := s.tasks.map Task.outcome

theorem outcomes_get {t : Task} (ht : s.tasks[k]? = some t) : s.outcomes[k]? = some t.outcome := by
  simp [State.outcomes, ht]

theorem outcomes_set (ht : s.tasks[k]? = some t) (h : t'.outcome = t.outcome) :
    (s.tasks.set k t').map Task.outcome = s.outcomes := by
  obtain ⟨hlt, hget⟩ := List.getElem?_eq_some_iff.mp (outcomes_get ht)
  rw [List.map_set, h, ← hget]
  exact List.set_getElem_self hlt

/-- The handler answers at most one request with each step, the one that holds the object. -/
inductive Outcomes (s s' : State) : Prop
  | keep : s'.outcomes = s.outcomes → (∀ o, (s'.objs o).result = (s.objs o).result) → Outcomes s s'
  | add (o : ℕ) : s'.outcomes = s.outcomes ++ [(o, false)] →
      (∀ o, (s'.objs o).result = (s.objs o).result) → Outcomes s s'
  | answer (o : ℕ) (t : Task) (reply : Reply) : s.tasks[(s.objs o).rid]? = some t →
      t.pc = .recvComplete → t.outcome = (o, false) →
      s'.outcomes = s.outcomes.set (s.objs o).rid (o, reply.err) →
      (s'.objs o).result = (if reply.err then -1 else (s.objs o).result) →
      (∀ p ≠ o, (s'.objs p).result = (s.objs p).result) → Outcomes s s'

theorem not_ping {iod : IoDesc} {m : Method} (h : methodOf (reqToLonghornCmdType iod).toUInt32 = some m) :
    m ≠ .ping := by
  rintro rfl
  rcases reqToLonghornCmdType_cases iod with ⟨-, ht⟩ | ⟨-, ht⟩ | ⟨-, ht⟩ | ht <;>
    exact absurd (ht ▸ h) (by decide)

theorem Step.outcomes (hc : Custody s) (hi : ∀ t ∈ s.tasks, Stage s t) (h : Step s a s') :
    Outcomes s s' := by
  cases h with
  | deliver q tag iod buf i x his hfr hx =>
    refine .add x ?_ (setObj_field Request.result rfl)
    simp [State.outcomes, onRequestAsync, Task.outcome, Task.ownErr]
  | spawn | unknown => exact .keep rfl fun _ => rfl
  | dispatchSend | handlerSend => exact .keep rfl (setObj_field Request.result rfl)
  | handle j h reply r hj hs hr =>
    have hran := runMethod_ran hr
    obtain ⟨t, ht, hto, hp⟩ := hc.owner (work_pos_of_handler hj)
    have hmem := List.mem_of_getElem? ht
    have hm := hc.methods h (List.mem_of_getElem? hj)
    have hl := hto ▸ hc.loaded _ t ht (by simp [Task.active, hp])
    rw [hl.type, (hc.captured _ t ht).opType] at hm
    have hnone := (hi t hmem).fresh hp (.inr ⟨h, List.mem_of_getElem? hj, hto.symm, hs⟩)
    refine .answer h.obj t reply ht hp ?_ ?_ ?_ ?_
    · simp [Task.outcome, Task.ownErr, hnone, hto]
    · change (s.record h.obj reply).map Task.outcome = _
      rw [record_eq_set ht, List.map_set]
      simp [State.outcomes, Task.outcome, Task.ownErr, hto]
    · simpa [State.setObj] using hran.result (not_ping hm)
    · intro p hp
      simp [State.setObj, hp]
  | recvComplete k t ht hp hlt => exact .keep (outcomes_set ht rfl) (setObj_field Request.result rfl)
  | sendRequest k t ht | check k t _ ht | failComplete k t ht | copyRead k t ht | copySkip k t ht
  | finalRes k t _ ht | complete k t _ ht | putMsg k t ht =>
    exact .keep (outcomes_set ht rfl) fun _ => rfl

/-- `Result` is `-1` from the first failed request on. -/
def Sticky (s : State) : Prop := ∀ o, (s.objs o).result = -1 ↔ (o, true) ∈ s.outcomes

theorem Sticky.step (hi : Sticky s) (h : Outcomes s s') : Sticky s' := by
  intro o
  cases h with
  | keep ho hr => rw [hr, ho, hi]
  | add x ho hr => rw [hr, ho, hi]; simp
  | answer x t reply ht hp hto ho hr hne =>
    have hx := hto ▸ outcomes_get ht
    obtain ⟨hlt, hget⟩ := List.getElem?_eq_some_iff.mp hx
    by_cases hox : o = x
    · subst hox
      rw [hr, ho]
      cases he : reply.err
      · rw [if_neg (by simp), hi, ← hget, List.set_getElem_self]
      · simp [List.mem_set, hlt]
    · rw [hne o hox, ho, hi]
      constructor
      · intro hm
        exact List.mem_set_of_ne hx hm (by simp [hox])
      · intro hm
        exact (List.mem_or_eq_of_mem_set hm).resolve_right (by simp [hox])

theorem sticky_reach (h : machine.Reach C s) : Sticky s := by
  apply h.invariant
  · rintro t ⟨iods, bufs, rfl⟩ o
    simp [start, newRequest, State.outcomes]
  · intro t a t' hr hi _ hs
    exact hi.step ((step_cases hs).outcomes (custody_reach hr) (stage_reach hr))

structure Verdict (s : State) (k : ℕ) (t : Task) : Prop where
  called : t.opType ≠ -1 → t.reply.isSome = true
  failed : t.failed = true ↔ (t.obj, true) ∈ s.outcomes.take (k + 1)

theorem Custody.mem_take (hc : Custody s) (ht : s.tasks[k]? = some t) (ha : t.active = true) :
    (t.obj, true) ∈ s.outcomes.take (k + 1) ↔ (t.obj, true) ∈ s.outcomes := by
  refine ⟨List.mem_of_mem_take, ?_⟩
  intro hm
  obtain ⟨j, hj⟩ := List.mem_iff_getElem?.mp hm
  rw [State.outcomes, List.getElem?_map] at hj
  obtain ⟨u, hu, he⟩ := Option.map_eq_some_iff.mp hj
  have ho : u.obj = t.obj := congrArg Prod.fst he
  have hle := hc.last j u hu
  rw [ho, hc.rid k t ht ha] at hle
  exact List.mem_iff_getElem?.mpr ⟨j, by rw [List.getElem?_take_of_lt (by omega), outcomes_get hu, he]⟩

theorem mem_take_set {l : List (ℕ × Bool)} {i x : ℕ} {b c : Bool} (hl : l[i]? = some (x, b))
    (h : o ≠ x ∨ k < i) : (o, true) ∈ (l.set i (x, c)).take (k + 1) ↔ (o, true) ∈ l.take (k + 1) := by
  by_cases hk : k < i
  · rw [List.take_set_of_le hk]
  · have ho := h.resolve_right hk
    have hget : (l.take (k + 1))[i]? = some (x, b) := by rw [List.getElem?_take_of_lt (by omega), hl]
    rw [List.take_set]
    constructor
    · intro hm
      exact (List.mem_or_eq_of_mem_set hm).resolve_right (by simp [ho])
    · intro hm
      exact List.mem_set_of_ne hget hm (by simp [ho])

theorem Verdict.record (hi : Verdict s k t) (hc : Custody s) {u : Task} {reply : Reply}
    (ht : s.tasks[k]? = some t) (hu : s.tasks[(s.objs o).rid]? = some u) (huo : u.obj = o)
    (hk : (s.objs o).rid ≠ k) (htasks : s'.tasks = s.record o reply) : Verdict s' k t := by
  refine ⟨hi.called, hi.failed.trans ?_⟩
  have hget := outcomes_get hu
  rw [Task.outcome, huo] at hget
  have hset : Task.outcome { u with reply := some reply } = (o, reply.err) := by
    simp [Task.outcome, Task.ownErr, huo]
  rw [State.outcomes, State.outcomes, htasks, record_eq_set hu, List.map_set, hset]
  refine (mem_take_set hget ?_).symm
  by_cases ho : t.obj = o
  · have hle := hc.last k t ht
    rw [ho] at hle
    exact .inr (by omega)
  · exact .inl ho

theorem verdict_step (hc : Custody s) (hst : ∀ t ∈ s.tasks, Stage s t) (hr : Sticky s)
    (hi : ∀ (k : ℕ) (t : Task), s.tasks[k]? = some t → t.pc.decided = true → Verdict s k t)
    (h : Step s a s') :
    ∀ (k : ℕ) (t : Task), s'.tasks[k]? = some t → t.pc.decided = true → Verdict s' k t := by
  have set : ∀ {u : State} {j : ℕ} {t t' : Task}, u.tasks = s.tasks.set j t' →
      s.tasks[j]? = some t → t'.outcome = t.outcome → (t'.pc.decided = true → Verdict s j t') →
      ∀ (k : ℕ) (v : Task), u.tasks[k]? = some v → v.pc.decided = true → Verdict u k v := by
    intro u j t t' htasks ht hout hnew k v hv hd
    have he : u.outcomes = s.outcomes := by rw [State.outcomes, htasks, outcomes_set ht hout]
    rw [htasks] at hv
    rcases List.get_set_cases hv with ⟨rfl, rfl⟩ | ⟨-, hv⟩
    · exact ⟨(hnew hd).called, he ▸ (hnew hd).failed⟩
    · exact ⟨(hi k v hv hd).called, he ▸ (hi k v hv hd).failed⟩
  cases h with
  | deliver q tag iod buf i x his hfr hx =>
    intro k t ht hd
    change (s.tasks ++ [_])[k]? = some t at ht
    rcases List.get_append_cases ht with ht | ⟨-, rfl⟩
    · have hk := (List.getElem?_eq_some_iff.mp ht).1
      have hv := hi k t ht hd
      refine ⟨hv.called, hv.failed.trans ?_⟩
      change _ ↔ _ ∈ ((s.tasks ++ _).map Task.outcome).take (k + 1)
      rw [List.map_append, List.take_append_of_le_length (by simp; omega)]
      rfl
    · cases hd
  | spawn | unknown | dispatchSend | handlerSend =>
    intro k t ht hd
    exact ⟨(hi k t ht hd).called, (hi k t ht hd).failed⟩
  | handle j h reply r hj hs hrun =>
    obtain ⟨u, hu, huo, hp⟩ := hc.owner (work_pos_of_handler hj)
    intro k t' ht' hd
    obtain ⟨t, ht, rfl⟩ := record_get ht'
    by_cases hk : (s.objs h.obj).rid = k
    · subst hk
      rw [hu] at ht
      cases ht
      simp [hp, TaskPc.decided] at hd
    · rw [if_neg hk] at hd ⊢
      exact (hi k t ht hd).record hc ht hu huo hk rfl
  | check k t failed ht hp hf =>
    refine set rfl ht rfl ?_
    intro _
    have ha : t.active = true := by simp [Task.active, hp]
    have hstage := hst t (List.mem_of_getElem? ht)
    refine ⟨?_, ?_⟩
    · intro hop
      obtain ⟨reply, hrep, -⟩ := hstage.received (by simp [hp, TaskPc.received]) hop
      exact Option.isSome_iff_exists.mpr ⟨reply, hrep⟩
    · change failed = true ↔ (t.obj, true) ∈ s.outcomes.take (k + 1)
      rw [hf, decide_eq_true_iff, hr, hc.mem_take ht ha]
  | sendRequest k t ht hp | recvComplete k t ht hp => exact set rfl ht rfl (by simp [TaskPc.decided])
  | failComplete k t ht hp | copyRead k t ht hp | copySkip k t ht hp | finalRes k t res ht hp
  | complete k t res ht hp | putMsg k t ht hp =>
    refine set rfl ht rfl ?_
    intro _
    have hv := hi k t ht (by simp [hp, TaskPc.decided])
    exact ⟨hv.called, hv.failed⟩

theorem verdict_reach (h : machine.Reach C s) :
    ∀ (k : ℕ) (t : Task), s.tasks[k]? = some t → t.pc.decided = true → Verdict s k t := by
  refine h.invariant
    (I := fun s => ∀ (k : ℕ) (t : Task), s.tasks[k]? = some t → t.pc.decided = true → Verdict s k t) ?_ ?_
  · rintro t ⟨iods, bufs, rfl⟩
    simp [start]
  · intro t a t' hr hi _ hs
    exact verdict_step (custody_reach hr) (stage_reach hr) (sticky_reach hr) hi (step_cases hs)

def supported (iod : IoDesc) : Bool := reqToLonghornCmdType iod != -1

/-- The result that the request should get, when `err` is what its handler call returned. -/
def expectedResult (iod : IoDesc) (err : Bool) : ℤ :=
  if !supported iod || err then -5
  else if ublksrvGetOp iod = ublkIoOpDiscard then 0
  else iod.nrSectors.toNat * 512

def EarlierFailure (s : State) (k o : ℕ) : Prop :=
  ∃ u ∈ s.tasks.take k, u.obj = o ∧ u.ownErr = true

theorem mem_outcomes {l : List Task} :
    (o, true) ∈ l.map Task.outcome ↔ ∃ u ∈ l, u.obj = o ∧ u.ownErr = true := by
  simp [Task.outcome]

theorem mem_take_succ (ht : s.tasks[k]? = some t) :
    (t.obj, true) ∈ s.outcomes.take (k + 1) ↔ t.ownErr = true ∨ EarlierFailure s k t.obj := by
  rw [State.outcomes, ← List.map_take, List.take_add_one, ht, mem_outcomes, EarlierFailure]
  simp only [Option.toList_some, List.mem_append, List.mem_singleton]
  constructor
  · rintro ⟨u, hu | rfl, ho, he⟩
    · exact .inr ⟨u, hu, ho, he⟩
    · exact .inl he
  · rintro (he | ⟨u, hu, ho, he⟩)
    · exact ⟨t, .inr rfl, rfl, he⟩
    · exact ⟨u, .inl hu, ho, he⟩

theorem head_results (h : t.Reported) {c : Commit} (hc : t.commits.head? = some c) :
    t.pc.decided = true ∧ c.res = if t.failed then eio else t.finalRes := by
  have hh : t.results.head? = some c.res := by simp [Task.results, hc]
  have done : ∀ {r : Int32} {l : List Int32}, t.results = r :: l → c.res = r := by
    intro r l he
    rw [he] at hh
    exact (Option.some.inj hh).symm
  have none : t.results = [] → False := by
    intro he
    rw [he] at hh
    cases hh
  cases hp : t.pc <;> simp only [Task.Reported, hp] at h
  case sendRequest | recvComplete | check => exact (none h).elim
  case failComplete => exact (none h.1).elim
  case copyOut | finalRes =>
    refine ⟨rfl, ?_⟩
    split_ifs at h ⊢
    · exact done h
    · exact (none h).elim
  case complete res =>
    refine ⟨rfl, ?_⟩
    obtain ⟨h, -⟩ := h
    split_ifs at h ⊢
    · exact done h
    · exact (none h).elim
  case putMsg | ended =>
    refine ⟨rfl, ?_⟩
    split_ifs at h ⊢
    · obtain ⟨res, h⟩ := h
      exact done h
    · exact done h

def NoError : Act → Bool
  | .handle _ reply => !reply.err
  | .deliver .. | .dispatch | .dispatchSend | .handlerSend _ | .task _ => true

theorem Step.ownErr (h : Step s a s') (he : NoError a = true) (hi : ∀ t ∈ s.tasks, t.ownErr = false) :
    ∀ t ∈ s'.tasks, t.ownErr = false := by
  have set : ∀ {k : ℕ} {t t' : Task}, s.tasks[k]? = some t → t'.reply = t.reply →
      ∀ u ∈ s.tasks.set k t', u.ownErr = false := by
    intro k t t' ht hr
    apply List.forall_mem_set hi
    rw [Task.ownErr, hr]
    exact hi t (List.mem_of_getElem? ht)
  cases h with
  | deliver q tag iod buf i x his hfr hx =>
    intro t ht
    rcases List.mem_append.mp ht with ht | ht
    · exact hi t ht
    · rw [List.mem_singleton.mp ht]
      rfl
  | spawn | unknown | dispatchSend | handlerSend => exact hi
  | handle j h reply r hj hs hr =>
    intro u hu
    obtain ⟨k, hk⟩ := List.mem_iff_getElem?.mp hu
    obtain ⟨t, ht, rfl⟩ := record_get hk
    split_ifs
    · simpa [NoError, Task.ownErr] using he
    · exact hi t (List.mem_of_getElem? ht)
  | sendRequest k t ht | recvComplete k t ht | check k t _ ht | failComplete k t ht | copyRead k t ht
  | copySkip k t ht | finalRes k t _ ht | complete k t _ ht | putMsg k t ht => exact set ht rfl

theorem ownErr_reach (hC : ∀ s a s', C s a → Step s a s' → NoError a = true) (h : machine.Reach C s) :
    ∀ t ∈ s.tasks, t.ownErr = false := by
  apply h.invariant (I := fun s => ∀ t ∈ s.tasks, t.ownErr = false)
  · rintro t ⟨iods, bufs, rfl⟩
    simp [start]
  · intro s a s' _ hi hc hs
    exact (step_cases hs).ownErr (hC s a s' hc (step_cases hs)) hi

theorem sound_reach (hC : ∀ s a s', C s a → Step s a s' → NoError a = true) (h : machine.Reach C s)
    (ht : t ∈ s.tasks) (hd : t.pc.decided = true) : t.failed = false := by
  obtain ⟨k, hk⟩ := List.mem_iff_getElem?.mp ht
  rw [← Bool.not_eq_true]
  intro hf
  obtain ⟨u, hu, he⟩ := List.mem_map.mp (List.mem_of_mem_take (((verdict_reach h k t hk hd).failed).mp hf))
  have herr : u.ownErr = true := congrArg Prod.snd he
  rw [ownErr_reach hC h u hu] at herr
  cases herr

/-- Without a failed call each goroutine commits once, so the driver's rule is enough. -/
theorem timely_reach (hC : ∀ s a s', C s a → Step s a s' → NoError a = true) (h : machine.Reach C s) :
    machine.Reach (fun s a => C s a ∧ Timely s a) s := by
  induction h with
  | init hi => exact .init hi
  | @step s s' a hr hc hs ih =>
    refine .step ih ⟨hc, ?_⟩ hs
    have htimely : machine.Reach Timely s := ih.mono fun _ _ h => h.2
    cases step_cases hs with
    | deliver q tag iod buf i x his hfr hx =>
      intro t ht hq htag
      have hrep := (report_reach htimely t ht).reported
      have hn := tagFree_commits htimely hfr ht hq htag
      have hdec := (head_results hrep (List.head?_eq_some_head hn)).1
      exact hrep.finished (sound_reach hC hr ht hdec) hn
    | _ => trivial

theorem shifted_ne_eio (x : UInt32) : (x <<< 9).toInt32 ≠ eio := by
  intro h
  have hb := congrArg (fun i : Int32 => i.toBitVec.getLsbD 0) h
  simp [eio] at hb

theorem shifted_toInt {x : UInt32} (h : x.toNat ≤ 1024) :
    (x <<< 9).toInt32.toInt = ((x <<< 9).toNat : ℤ) := by
  have hs : (x <<< 9).toNat = x.toNat * 512 := shl9_toNat (by omega)
  exact toInt32_toInt (by omega)

theorem issued_nrSectors {iod : IoDesc} (h : issued iod = true)
    (hop : ublksrvGetOp iod = ublkIoOpRead ∨ ublksrvGetOp iod = ublkIoOpWrite) :
    iod.nrSectors.toNat ≤ 1024 := by
  have hlim : defBufSize >>> 9 = 1024 := rfl
  rw [issued, hlim] at h
  rcases hop with hop | hop <;> simpa [hop] using h

theorem finalRes_supported (hc : t.Captured) (h : supported t.iod = true) :
    t.finalRes.toInt = expectedResult t.iod false := by
  have hn := issued_nrSectors hc.issued
  rw [Task.finalRes, hc.opType, expectedResult, h, getNrSectors]
  rcases reqToLonghornCmdType_cases t.iod with ⟨hop, ht⟩ | ⟨hop, ht⟩ | ⟨hop, ht⟩ | ht
  · rw [ht, hop, if_neg (by decide), shifted_toInt (hn (.inl hop)), shl9_toNat ((hn (.inl hop)).trans_lt (by decide))]
    rfl
  · rw [ht, hop, if_neg (by decide), shifted_toInt (hn (.inr hop)), shl9_toNat ((hn (.inr hop)).trans_lt (by decide))]
    rfl
  · rw [ht, hop]
    rfl
  · simp [supported, ht] at h

theorem expectedResult_nonneg {iod : IoDesc} (h : supported iod = true) : 0 ≤ expectedResult iod false := by
  rw [expectedResult, if_neg (by simp [h])]
  split_ifs
  · exact le_rfl
  · exact Int.mul_nonneg (Int.natCast_nonneg _) (by decide)

theorem unsupported_opType (hc : t.Captured) (h : supported t.iod = false) : t.opType = -1 := by
  rw [hc.opType]
  simpa [supported] using h

theorem finalRes_unsupported (hc : t.Captured) (h : supported t.iod = false) : t.finalRes ≠ eio := by
  rw [Task.finalRes, unsupported_opType hc h, if_neg (by decide)]
  exact shifted_ne_eio _

/-- The result is the outcome of the request, and a request with a good result was served. -/
def Accurate (t : Task) (c : Commit) : Prop :=
  c.res.toInt = expectedResult t.iod t.ownErr ∧ (0 ≤ c.res.toInt → t.reply.isSome = true)

instance (t : Task) (c : Commit) : Decidable (Accurate t c) :=
  inferInstanceAs (Decidable (_ ∧ (_ → _)))

theorem accurate_iff (h : machine.Reach Timely s) (ht : s.tasks[k]? = some t) {c : Commit}
    (hc : s.answers k = some c) :
    Accurate t c ↔ if supported t.iod then t.ownErr = true ∨ ¬ EarlierFailure s k t.obj
      else EarlierFailure s k t.obj := by
  have hmem := List.mem_of_getElem? ht
  have hcap := (custody_reach h).captured k t ht
  rw [(turn_reach h k t ht).answer] at hc
  obtain ⟨hdec, hres⟩ := head_results (report_reach h t hmem).reported hc
  obtain ⟨hcalled, hfailed⟩ := verdict_reach h k t ht hdec
  rw [mem_take_succ ht] at hfailed
  have heio : eio.toInt = -5 := rfl
  rw [Accurate]
  cases hs : supported t.iod
  · have hop := unsupported_opType hcap hs
    have hrep := (stage_reach h t hmem).unsupported hop
    have hown : t.ownErr = false := by simp [Task.ownErr, hrep]
    have hexpected : expectedResult t.iod t.ownErr = -5 := by simp [expectedResult, hs]
    rw [hown] at hfailed
    simp only [Bool.false_eq_true, false_or, if_false] at hfailed ⊢
    rw [hexpected, ← hfailed, hres]
    split_ifs with hf
    · simp [hf]
    · have hne : t.finalRes.toInt ≠ -5 := fun he =>
        finalRes_unsupported hcap hs (Int32.toInt_inj.mp (he.trans heio.symm))
      simp [hf, hne]
  · have hreply := hcalled (by simpa [supported, hcap.opType] using hs)
    simp only [hreply, implies_true, and_true, if_true]
    cases hown : t.ownErr
    · rw [hown] at hfailed
      simp only [Bool.false_eq_true, false_or] at hfailed ⊢
      rw [← hfailed, hres]
      split_ifs with hf
      · have := expectedResult_nonneg hs
        rw [heio]
        simp only [hf, not_true_eq_false, iff_false]
        omega
      · simp [hf, finalRes_supported hcap hs]
    · rw [hres, if_pos (hfailed.mpr (.inl hown))]
      simp [expectedResult]

theorem ne_eio_reach (h : machine.Reach C s) : ∀ t ∈ s.tasks, ∀ res, t.pc = .complete res → res ≠ eio := by
  apply h.invariant (I := fun s => ∀ t ∈ s.tasks, ∀ res, t.pc = .complete res → res ≠ eio)
  · rintro t ⟨iods, bufs, rfl⟩
    simp [start]
  · intro s a s' _ hi _ hs
    have set : ∀ {k : ℕ} {t : Task}, (∀ res, t.pc = .complete res → res ≠ eio) →
        ∀ u ∈ s.tasks.set k t, ∀ res, u.pc = .complete res → res ≠ eio :=
      fun ht => List.forall_mem_set hi ht
    cases step_cases hs with
    | deliver q tag iod buf i x his hfr hx =>
      intro t ht
      rcases List.mem_append.mp ht with ht | ht
      · exact hi t ht
      · rw [List.mem_singleton.mp ht]
        rintro res ⟨⟩
    | spawn | unknown | dispatchSend | handlerSend => exact hi
    | handle j h reply r hj hs hr =>
      intro u hu
      obtain ⟨k, hk⟩ := List.mem_iff_getElem?.mp hu
      obtain ⟨t, ht, rfl⟩ := record_get hk
      have hold := hi t (List.mem_of_getElem? ht)
      split_ifs <;> exact hold
    | finalRes k t res ht hp hres =>
      apply set
      intro res' he
      cases he
      rw [hres]
      split_ifs
      · decide
      · exact shifted_ne_eio _
    | check k t failed =>
      apply set
      rintro res hres
      cases failed <;> cases hres
    | sendRequest k t | recvComplete k t | failComplete k t | copyRead k t | copySkip k t | complete k t
    | putMsg k t =>
      apply set
      rintro res ⟨⟩

/-- The goroutine of request `k` can go on to a commit that is no error and ends whatever the driver
then waits for on the tag. -/
def CommitsNext (s : State) (k : ℕ) (t : Task) : Prop :=
  ∃ as u c, machine.run s as = some u ∧ c.res ≠ eio ∧ (∀ j ≠ k, u.tasks[j]? = s.tasks[j]?) ∧
    ∀ j, s.inFlight t.q t.tag = some j → u.answers j = some c

theorem commitsNext_complete {res : Int32} (ht : s.tasks[k]? = some t) (hp : t.pc = .complete res)
    (hres : res ≠ eio) : CommitsNext s k t := by
  refine ⟨[.task k], s.completeIo k t res .putMsg, ⟨res, s.bufs t.q t.tag⟩, ?_, hres, ?_, ?_⟩
  · simp [Machine.run, machine, step, ht, taskStep, hp]
  · intro j hj
    exact List.getElem?_set_ne (Ne.symm hj)
  · intro j hj
    simp [State.completeIo, State.answer, State.setTask, hj]

theorem CommitsNext.step {s₁ : State} {t₁ : Task} (h : CommitsNext s₁ k t₁) (hs : step s (.task k) = some s₁)
    (htasks : s₁.tasks = s.tasks.set k t₁) (hq : t₁.q = t.q) (htag : t₁.tag = t.tag)
    (hf : s₁.inFlight = s.inFlight) : CommitsNext s k t := by
  obtain ⟨as, u, c, hrun, hc, hu, ha⟩ := h
  refine ⟨.task k :: as, u, c, ?_, hc, ?_, ?_⟩
  · rw [Machine.run_cons]
    change (Pool.step s (.task k)).bind _ = _
    rw [hs]
    exact hrun
  · intro j hj
    rw [hu j hj, htasks, List.getElem?_set_ne (Ne.symm hj)]
  · rw [hq, htag, hf] at ha
    exact ha

theorem commitsNext_finalRes (ht : s.tasks[k]? = some t) (hp : t.pc = .finalRes) : CommitsNext s k t := by
  have hlt := (List.getElem?_eq_some_iff.mp ht).1
  let res : Int32 := if t.opType = longhornCmdTypeUnmap then 0 else (getNrSectors (s.iods t.q t.tag) <<< 9).toInt32
  have hs : step s (.task k) = some (s.setTask k { t with pc := .complete res }) := by
    simp [step, ht, taskStep, hp, res]
  have hres : res ≠ eio := by
    unfold res
    split_ifs
    · decide
    · exact shifted_ne_eio _
  have hnext : CommitsNext (s.setTask k { t with pc := .complete res }) k { t with pc := .complete res } :=
    commitsNext_complete (List.getElem?_set_self hlt) rfl hres
  exact hnext.step hs rfl rfl rfl rfl

theorem commitsNext_copyOut (ht : s.tasks[k]? = some t) (hp : t.pc = .copyOut) : CommitsNext s k t := by
  have hlt := (List.getElem?_eq_some_iff.mp ht).1
  by_cases hop : t.opType = longhornCmdTypeRead
  · have hnext := commitsNext_finalRes (s :=
      { s.setTask k
          { t with
            pc := .finalRes
            copied := some (min t.dataLen (s.objs t.obj).rLen, (s.objs t.obj).rData) } with
        bufs := Function.update s.bufs t.q (Function.update (s.bufs t.q) t.tag
          (copyOut (s.bufs t.q t.tag) t.dataLen (s.objs t.obj))) }) (List.getElem?_set_self hlt) rfl
    refine hnext.step ?_ rfl rfl rfl rfl
    simp [step, ht, taskStep, hp, hop]
  · have hnext := commitsNext_finalRes (s := s.setTask k { t with pc := .finalRes })
      (List.getElem?_set_self hlt) rfl
    refine hnext.step ?_ rfl rfl rfl rfl
    simp [step, ht, taskStep, hp, hop]

/-- A commit without an error for a request that no handler has been called for is wrong. -/
theorem not_accurate {c : Commit} (hr : t.reply = none) (hc : c.res ≠ eio) : ¬ Accurate t c := by
  rintro ⟨hres, hcalled⟩
  have hown : t.ownErr = false := by simp [Task.ownErr, hr]
  have hne : c.res.toInt ≠ -5 := by
    intro he
    have heio : eio.toInt = -5 := rfl
    exact hc (Int32.toInt_inj.mp (he.trans heio.symm))
  rw [hown] at hres
  cases hs : supported t.iod with
  | false =>
    rw [expectedResult, hs] at hres
    exact hne hres
  | true =>
    have hnn := expectedResult_nonneg hs
    rw [← hres] at hnn
    have hsome := hcalled hnn
    rw [hr] at hsome
    cases hsome

theorem deliver_last {q tag i : ℕ} {iod : IoDesc} {buf : ℕ → UInt8}
    (h : step s (.deliver q tag iod buf i) = some s') : s.inFlight q tag = none ∧
      s'.inFlight q tag = some s.tasks.length ∧ ∃ n, s'.tasks = s.tasks ++ [n] ∧ n.reply = none := by
  cases step_cases h with
  | deliver _ _ _ _ _ x his hfr hx =>
    exact ⟨Option.isNone_iff_eq_none.mp hfr, by simp, _, rfl, rfl⟩

/-- A request that is delivered too early can get the second commit of an earlier one. -/
theorem wrong_of_not_timely (h : machine.Reach Timely s) (hs : step s a = some s') (hc : ¬ Timely s a) :
    ∃ as u t c, machine.run s' as = some u ∧ u.tasks[s.tasks.length]? = some t ∧
      u.answers s.tasks.length = some c ∧ ¬ Accurate t c := by
  cases a with
  | deliver q tag iod buf i =>
    obtain ⟨hfree, hfl, n, htasks, hreply⟩ := deliver_last hs
    simp only [Timely, not_forall, Bool.not_eq_true] at hc
    obtain ⟨t, ht, rfl, rfl, hp⟩ := hc
    obtain ⟨k, hk⟩ := List.mem_iff_getElem?.mp ht
    have hlt := (List.getElem?_eq_some_iff.mp hk).1
    have hrep := (report_reach h t ht).reported
    have hres : t.results ≠ [] := by
      intro hn
      have hcur := (turn_reach h k t hk).inFlight (List.map_eq_nil_iff.mp hn)
      rw [hfree] at hcur
      cases hcur
    have hnext : CommitsNext s' k t := by
      have hk' : s'.tasks[k]? = some t := by rw [htasks, List.getElem?_append_left hlt, hk]
      cases hpc : t.pc with
      | sendRequest | recvComplete | check =>
        simp only [Task.Reported, hpc] at hrep
        exact absurd hrep hres
      | failComplete =>
        simp only [Task.Reported, hpc] at hrep
        exact absurd hrep.1 hres
      | copyOut => exact commitsNext_copyOut hk' hpc
      | finalRes => exact commitsNext_finalRes hk' hpc
      | complete res => exact commitsNext_complete hk' hpc (ne_eio_reach h t ht res hpc)
      | putMsg | ended =>
        rw [hpc] at hp
        cases hp
    obtain ⟨as, u, c, hrun, hce, hu, ha⟩ := hnext
    refine ⟨as, u, n, c, hrun, ?_, ha _ hfl, not_accurate hreply hce⟩
    rw [hu _ (Nat.ne_of_gt hlt), htasks]
    exact List.getElem?_concat_length
  | _ => exact absurd trivial hc

def readIod : IoDesc := ⟨0, 8, 0, 0⟩

def flushIod : IoDesc := ⟨2, 0, 0, 0⟩

def servedRead (reply : Reply) : List Act :=
  [.deliver 0 0 readIod (fun _ => 0) 0, .task 0, .dispatch, .handle 0 reply, .handlerSend 0] ++
    List.replicate 5 (.task 0)

set_option maxRecDepth 8000

def fullReply : Reply := ⟨4096, false, fun _ => 1⟩

def readDone : State :=
  (machine.runIf (fun s a => decide (Timely s a)) (start (fun _ _ => ⟨0, 0, 0, 0⟩) fun _ _ _ => 0)
    (servedRead fullReply)).get (by decide)

def readTask : Task := readDone.tasks.head (by decide)

theorem readDone_reach : machine.Reach Timely readDone :=
  .of_runIf (.init ⟨_, _, rfl⟩) (fun _ _ => of_decide_eq_true) (Option.some_get _).symm

/-- The read on tag 0 has failed, and its goroutine has sent the first of its two commits. -/
def failedOnce : State :=
  (machine.runIf (fun s a => decide (Timely s a)) (start (fun _ _ => ⟨0, 0, 0, 0⟩) fun _ _ _ => 0)
    [.deliver 0 0 readIod (fun _ => 0) 0, .task 0, .dispatch, .handle 0 ⟨0, true, fun _ => 0⟩, .handlerSend 0,
      .task 0, .task 0, .task 0]).get (by decide)

theorem failedOnce_reach : machine.Reach Timely failedOnce :=
  .of_runIf (.init ⟨_, _, rfl⟩) (fun _ _ => of_decide_eq_true) (Option.some_get _).symm

def redelivered : State := (step failedOnce (.deliver 0 0 readIod (fun _ => 0) 0)).get (by decide)

def flushDone : State :=
  (runFrom ([.deliver 0 0 flushIod (fun _ => 0) 0, .task 0, .dispatch, .dispatchSend] ++
    List.replicate 5 (.task 0))).get (by decide)

end GoUblksrv.Pool
