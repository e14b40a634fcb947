import GoUblksrv.Pool.Stages

/-!
Whose commit ends a request. A goroutine that failed commits twice, and the driver may have
delivered on the tag again in between; it then takes the second commit for the new request.
When it delivers only after the last commit of each earlier request on the tag, each request
is ended by the first commit of its own goroutine.
-/

namespace GoUblksrv.Pool

variable {s s' : State} {a : Act} {t t' u : Task} {C : State → Act → Prop} {o k : ℕ}

theorem update_tag {β : Type*} {f : ℕ → ℕ → β} {q tag q' tag' : ℕ} {b : β}
    (h : q' = q → tag' ≠ tag) :
    Function.update f q (Function.update (f q) tag b) q' tag' = f q' tag' := by
  by_cases hq : q' = q
  · subst hq
    rw [Function.update_self, Function.update_of_ne (h rfl)]
  · rw [Function.update_of_ne hq]

def TaskPc.decided : TaskPc → Bool
  | .sendRequest | .recvComplete | .check => false
  | _ => true

def Task.finalRes (t : Task) : Int32 :=
  if t.opType = longhornCmdTypeUnmap then 0 else (getNrSectors t.iod <<< 9).toInt32

def Task.results (t : Task) : List Int32 := t.commits.map Commit.res

def Task.Reported (t : Task) : Prop :=
  match t.pc with
  | .sendRequest | .recvComplete | .check => t.results = []
  | .failComplete => t.results = [] ∧ t.failed = true
  | .copyOut | .finalRes => t.results = if t.failed then [eio] else []
  | .complete res =>
    t.results = (if t.failed then [eio] else []) ∧ (t.failed = false → res = t.finalRes)
  | .putMsg | .ended =>
    if t.failed then ∃ res, t.results = [eio, res] else t.results = [t.finalRes]

/-- The goroutine has made its last call of `ublksrv_complete_io`. -/
def TaskPc.finished : TaskPc → Bool
  | .putMsg | .ended => true
  | _ => false

theorem Task.Reported.commits_ne_nil (h : t.Reported) (hf : t.pc.finished = true) : t.commits ≠ [] := by
  intro hn
  have hres : t.results = [] := by simp [Task.results, hn]
  cases hp : t.pc <;> simp only [hp, TaskPc.finished, Bool.false_eq_true] at hf
  all_goals
    simp only [Task.Reported, hp, hres] at h
    split_ifs at h
    · obtain ⟨res, h⟩ := h
      cases h

theorem Task.Reported.finished (h : t.Reported) (hf : t.failed = false) (hn : t.commits ≠ []) :
    t.pc.finished = true := by
  have hres : t.results ≠ [] := by simpa [Task.results] using hn
  cases hp : t.pc <;> simp only [Task.Reported, hp, hf] at h <;> first | rfl | exact absurd h hres | skip
  · exact absurd h.1 hres
  · exact absurd h.1 hres

/-- A tag is delivered again only after the last commit of each goroutine on it. -/
def Timely (s : State) : Act → Prop
  | .deliver q tag _ _ _ => ∀ t ∈ s.tasks, t.q = q → t.tag = tag → t.pc.finished = true
  | _ => True

instance : Decidable (Timely s a) :=
  match a with
  | .deliver q tag _ _ _ => inferInstanceAs (Decidable (∀ t ∈ s.tasks, t.q = q → t.tag = tag → _ = true))
  | .dispatch | .dispatchSend | .handle .. | .handlerSend _ | .task _ => .isTrue trivial

structure Report (s : State) (t : Task) : Prop where
  current : t.commits = [] → s.iods t.q t.tag = t.iod
  reported : t.Reported

theorem Report.next (hi : Report s t) (hq : t'.q = t.q) (htag : t'.tag = t.tag) (hiod : t'.iod = t.iod)
    (hc : t'.commits = [] → t.commits = []) (h : t'.Reported) (hs : s'.iods = s.iods) :
    Report s' t' := by
  refine ⟨?_, h⟩
  intro hn
  rw [hq, htag, hiod, hs]
  exact hi.current (hc hn)

theorem completeIo_results (t : Task) (res : Int32) (pc : TaskPc) :
    (t.completeIo s res pc).results = t.results ++ [res] := by
  simp [Task.completeIo, Task.results]

theorem report_step (hi : ∀ t ∈ s.tasks, Report s t) (hc : Timely s a) (h : Step s a s') :
    ∀ t ∈ s'.tasks, Report s' t := by
  have set : ∀ {u : State} {k : ℕ} {t t' : Task}, u.tasks = s.tasks.set k t' →
      s.tasks[k]? = some t → u.iods = s.iods → t'.q = t.q → t'.tag = t.tag → t'.iod = t.iod →
      (t'.commits = [] → t.commits = []) → (t.Reported → t'.Reported) → ∀ v ∈ u.tasks, Report u v := by
    intro u k t t' htasks ht hiods hq htag hiod hc hr v hv
    have hold := hi t (List.mem_of_getElem? ht)
    rw [htasks] at hv
    rcases List.mem_or_eq_of_mem_set hv with hv | rfl
    · exact (hi v hv).next rfl rfl rfl id (hi v hv).reported hiods
    · exact hold.next hq htag hiod hc (hr hold.reported) hiods
  cases h with
  | deliver q tag iod buf i x his hfr hx =>
    intro t ht
    rcases List.mem_append.mp ht with ht | ht
    · refine ⟨?_, (hi t ht).reported⟩
      intro hn
      rw [← (hi t ht).current hn]
      exact update_tag fun hq htag => (hi t ht).reported.commits_ne_nil (hc t ht hq htag) hn
    · rw [List.mem_singleton.mp ht]
      exact ⟨fun _ => by simp, rfl⟩
  | spawn | unknown | dispatchSend | handlerSend =>
    intro t ht
    exact ⟨(hi t ht).current, (hi t ht).reported⟩
  | handle j h reply r hj hs hr =>
    intro u hu
    obtain ⟨k, hk⟩ := List.mem_iff_getElem?.mp hu
    obtain ⟨t, ht, rfl⟩ := record_get hk
    have hold := hi t (List.mem_of_getElem? ht)
    split_ifs
    · exact ⟨hold.current, hold.reported⟩
    · exact ⟨hold.current, hold.reported⟩
  | check k t failed ht hp =>
    refine set rfl ht rfl rfl rfl rfl id ?_
    intro hr
    simp only [Task.Reported, hp] at hr
    cases failed
    · exact hr
    · exact ⟨hr, rfl⟩
  | finalRes k t res ht hp hres =>
    refine set rfl ht rfl rfl rfl rfl id ?_
    intro hr
    simp only [Task.Reported, hp] at hr
    refine ⟨hr, ?_⟩
    intro hf
    have hn : t.commits = [] := by
      change t.failed = false at hf
      simpa [Task.results, hf] using hr
    rw [hres, (hi t (List.mem_of_getElem? ht)).current hn]
    rfl
  | failComplete k t ht hp =>
    refine set rfl ht rfl rfl rfl rfl (by simp [Task.completeIo]) ?_
    intro hr
    simp only [Task.Reported, hp] at hr
    change (t.completeIo s eio .copyOut).results = if t.failed then [eio] else []
    rw [completeIo_results, hr.1, hr.2]
    rfl
  | complete k t res ht hp =>
    refine set rfl ht rfl rfl rfl rfl (by simp [Task.completeIo]) ?_
    intro hr
    simp only [Task.Reported, hp] at hr
    change if t.failed then ∃ r, (t.completeIo s res .putMsg).results = [eio, r]
      else (t.completeIo s res .putMsg).results = [t.finalRes]
    rw [completeIo_results, hr.1]
    split_ifs with hf
    · exact ⟨res, rfl⟩
    · rw [hr.2 (by simpa using hf)]
      rfl
  | sendRequest k t ht hp | recvComplete k t ht hp | copyRead k t ht hp | copySkip k t ht hp
  | putMsg k t ht hp =>
    refine set rfl ht rfl rfl rfl rfl id ?_
    intro hr
    simp only [Task.Reported, hp] at hr
    exact hr

theorem report_reach (h : machine.Reach Timely s) : ∀ t ∈ s.tasks, Report s t := by
  apply h.invariant (I := fun s => ∀ t ∈ s.tasks, Report s t)
  · rintro t ⟨iods, bufs, rfl⟩
    simp [start]
  · intro t a t' _ hi hc hs
    exact report_step hi hc (step_cases hs)

structure Task.Kept (t' t : Task) : Prop where
  q : t'.q = t.q
  tag : t'.tag = t.tag
  commits : t'.commits = t.commits
  finished : t'.pc.finished = t.pc.finished

/-- A step that is seen by the driver on no tag. -/
structure Unseen (s s' : State) : Prop where
  tasks : ∀ (k : ℕ) (t' : Task), s'.tasks[k]? = some t' → ∃ t, s.tasks[k]? = some t ∧ t'.Kept t
  length : s'.tasks.length = s.tasks.length
  inFlight : s'.inFlight = s.inFlight
  answers : s'.answers = s.answers

theorem unseen_set (htasks : s'.tasks = s.tasks.set k t') (ht : s.tasks[k]? = some t) (hk : t'.Kept t)
    (hf : s'.inFlight = s.inFlight) (ha : s'.answers = s.answers) : Unseen s s' := by
  refine ⟨?_, by rw [htasks, List.length_set], hf, ha⟩
  intro j u hu
  rw [htasks] at hu
  rcases List.get_set_cases hu with ⟨rfl, rfl⟩ | ⟨-, hu⟩
  · exact ⟨t, ht, hk⟩
  · exact ⟨u, hu, rfl, rfl, rfl, rfl⟩

theorem unseen_of_eq (htasks : s'.tasks = s.tasks) (hf : s'.inFlight = s.inFlight)
    (ha : s'.answers = s.answers) : Unseen s s' := by
  refine ⟨?_, by rw [htasks], hf, ha⟩
  intro j u hu
  exact ⟨u, htasks ▸ hu, rfl, rfl, rfl, rfl⟩

/-- The steps as the driver sees them. -/
inductive Turning (s : State) : Act → State → Prop
  | deliver (q tag : ℕ) (iod : IoDesc) (buf : ℕ → UInt8) (i : ℕ) (t : Task) (s' : State) :
      s.inFlight q tag = none → s'.tasks = s.tasks ++ [t] → t.q = q → t.tag = tag → t.commits = [] →
      t.pc.finished = false →
      s'.inFlight = Function.update s.inFlight q (Function.update (s.inFlight q) tag (some s.tasks.length)) →
      s'.answers = s.answers → Turning s (.deliver q tag iod buf i) s'
  | commit (k : ℕ) (t : Task) (res : Int32) (pc : TaskPc) : s.tasks[k]? = some t → t.pc.finished = false →
      Turning s (.task k) (s.completeIo k t res pc)
  | unseen (a : Act) (s' : State) : Unseen s s' → Turning s a s'

theorem Step.turning (h : Step s a s') : Turning s a s' := by
  cases h with
  | deliver q tag iod buf i x his hfr hx =>
    exact .deliver q tag iod buf i _ _ (Option.isNone_iff_eq_none.mp hfr) rfl rfl rfl rfl rfl rfl rfl
  | failComplete k t ht hp => exact .commit k t eio .copyOut ht (by rw [hp]; rfl)
  | complete k t res ht hp => exact .commit k t res .putMsg ht (by rw [hp]; rfl)
  | spawn | unknown | dispatchSend | handlerSend => exact .unseen _ _ (unseen_of_eq rfl rfl rfl)
  | handle j h reply r hj hs hr =>
    refine .unseen _ _ ⟨?_, ?_, rfl, rfl⟩
    · intro k u hu
      obtain ⟨t, ht, rfl⟩ := record_get hu
      refine ⟨t, ht, ?_⟩
      split_ifs <;> exact ⟨rfl, rfl, rfl, rfl⟩
    · exact List.length_modify _ _ _
  | check k t failed ht hp =>
    refine .unseen _ _ (unseen_set rfl ht ⟨rfl, rfl, rfl, ?_⟩ rfl rfl)
    cases failed <;> simp [hp, TaskPc.finished]
  | sendRequest k t ht hp | recvComplete k t ht hp | copyRead k t ht hp | copySkip k t ht hp
  | finalRes k t _ ht hp | putMsg k t ht hp =>
    exact .unseen _ _ (unseen_set rfl ht ⟨rfl, rfl, rfl, by simp [hp, TaskPc.finished]⟩ rfl rfl)

theorem completeIo_get {res : Int32} {pc : TaskPc} {j : ℕ} (ht : s.tasks[k]? = some t)
    (h : (s.completeIo k t res pc).tasks[j]? = some u) :
    j = k ∧ u = t.completeIo s res pc ∨ j ≠ k ∧ s.tasks[j]? = some u := by
  change (s.tasks.set k _)[j]? = some u at h
  rcases List.get_set_cases h with ⟨rfl, rfl⟩ | ⟨hne, h⟩
  · exact .inl ⟨rfl, rfl⟩
  · exact .inr ⟨hne, h⟩

/-- The request that the driver waits for on a tag has no commit, and later ones no answer. -/
structure Flight (s : State) : Prop where
  current : ∀ q tag k, s.inFlight q tag = some k →
    ∃ t, s.tasks[k]? = some t ∧ t.q = q ∧ t.tag = tag ∧ t.commits = []
  unborn : ∀ k, s.tasks.length ≤ k → s.answers k = none

theorem update_tag_cases {f : ℕ → ℕ → Option ℕ} {q tag q' tag' : ℕ} {x : Option ℕ}
    (h : Function.update f q (Function.update (f q) tag x) q' tag' = some k) :
    q' = q ∧ tag' = tag ∧ x = some k ∨ (q' = q → tag' ≠ tag) ∧ f q' tag' = some k := by
  by_cases hq : q' = q
  · subst hq
    rw [Function.update_self] at h
    by_cases htag : tag' = tag
    · subst htag
      rw [Function.update_self] at h
      exact .inl ⟨rfl, rfl, h⟩
    · rw [Function.update_of_ne htag] at h
      exact .inr ⟨fun _ => htag, h⟩
  · rw [Function.update_of_ne hq] at h
    exact .inr ⟨fun he => absurd he hq, h⟩

theorem answers_of_ne (c : Commit) {q tag : ℕ} (hk : s.inFlight q tag ≠ some k) :
    (s.answer q tag c).answers k = s.answers k := by
  cases hf : s.inFlight q tag with
  | none => simp [State.answer, hf]
  | some x =>
    have hne : k ≠ x := by
      rintro rfl
      exact hk hf
    simp [State.answer, hf, Function.update_of_ne hne]

theorem Flight.step (hi : Flight s) (h : Turning s a s') : Flight s' := by
  cases h with
  | deliver q tag iod buf i t s' hnone htasks hq htag hc hp hf ha =>
    refine ⟨?_, ?_⟩
    · intro q' tag' k hk
      rw [hf] at hk
      rw [htasks]
      rcases update_tag_cases hk with ⟨rfl, rfl, he⟩ | ⟨-, hk⟩
      · cases he
        exact ⟨t, List.getElem?_concat_length, hq, htag, hc⟩
      · obtain ⟨u, hu, huq⟩ := hi.current q' tag' k hk
        have hlt := (List.getElem?_eq_some_iff.mp hu).1
        exact ⟨u, by rw [List.getElem?_append_left hlt, hu], huq⟩
    · intro k hk
      rw [htasks, List.length_append] at hk
      rw [ha]
      exact hi.unborn k (by omega)
  | commit k t res pc ht hp =>
    refine ⟨?_, ?_⟩
    · intro q' tag' j hj
      rcases update_tag_cases hj with ⟨-, -, he⟩ | ⟨hne, hj⟩
      · cases he
      · obtain ⟨u, hu, rfl, rfl, hc⟩ := hi.current q' tag' j hj
        have hjk : k ≠ j := by
          rintro rfl
          rw [ht] at hu
          cases hu
          exact hne rfl rfl
        exact ⟨u, (List.getElem?_set_ne hjk).trans hu, rfl, rfl, hc⟩
    · intro j hj
      change (s.tasks.set k _).length ≤ j at hj
      rw [List.length_set] at hj
      refine (answers_of_ne _ ?_).trans (hi.unborn j hj)
      intro he
      obtain ⟨u, hu, -⟩ := hi.current _ _ _ he
      have hlt := (List.getElem?_eq_some_iff.mp hu).1
      omega
  | unseen a s' hu =>
    refine ⟨?_, ?_⟩
    · intro q' tag' k hk
      rw [hu.inFlight] at hk
      obtain ⟨t, ht, rfl, rfl, hc⟩ := hi.current q' tag' k hk
      have hlt := (List.getElem?_eq_some_iff.mp ht).1
      obtain ⟨t', ht'⟩ : ∃ t', s'.tasks[k]? = some t' :=
        ⟨_, List.getElem?_eq_getElem (by rw [hu.length]; exact hlt)⟩
      obtain ⟨v, hv, hkept⟩ := hu.tasks k t' ht'
      rw [ht] at hv
      cases hv
      exact ⟨t', ht', hkept.q, hkept.tag, hkept.commits.trans hc⟩
    · intro k hk
      rw [hu.length] at hk
      rw [hu.answers]
      exact hi.unborn k hk

theorem flight_reach (h : machine.Reach C s) : Flight s := by
  refine h.invariant ?_ fun t a t' _ hi _ hs => hi.step (step_cases hs).turning
  rintro t ⟨iods, bufs, rfl⟩
  exact ⟨nofun, fun _ _ => rfl⟩

structure Turn (s : State) (k : ℕ) (t : Task) : Prop where
  alone : t.pc.finished = false → ∀ (j : ℕ) (u : Task), s.tasks[j]? = some u → u.q = t.q → u.tag = t.tag →
    u.pc.finished = false → j = k
  inFlight : t.commits = [] → s.inFlight t.q t.tag = some k
  answer : s.answers k = t.commits.head?

def Turns (s : State) : Prop := ∀ (k : ℕ) (t : Task), s.tasks[k]? = some t → Turn s k t

theorem unfinished (hrep : ∀ t ∈ s.tasks, t.Reported) (ht : s.tasks[k]? = some t) (hn : t.commits = []) :
    t.pc.finished = false := by
  rw [← Bool.not_eq_true]
  exact fun hp => (hrep t (List.mem_of_getElem? ht)).commits_ne_nil hp hn

theorem Turns.deliver (hi : Turns s) (hrep : ∀ t ∈ s.tasks, t.Reported) {q tag : ℕ}
    (hfin : ∀ u ∈ s.tasks, u.q = q → u.tag = tag → u.pc.finished = true) (hunborn : s.answers s.tasks.length = none)
    (htasks : s'.tasks = s.tasks ++ [t]) (hq : t.q = q) (htag : t.tag = tag) (hcm : t.commits = [])
    (hfl : s'.inFlight = Function.update s.inFlight q (Function.update (s.inFlight q) tag (some s.tasks.length)))
    (ha : s'.answers = s.answers) : Turns s' := by
  have finished : ∀ {k : ℕ} {u : Task}, s.tasks[k]? = some u → u.q = q → u.tag = tag → u.pc.finished = true :=
    fun hu => hfin _ (List.mem_of_getElem? hu)
  intro k u hu
  rw [htasks] at hu
  rcases List.get_append_cases hu with hold | ⟨hk, rfl⟩
  · have hturn := hi k u hold
    refine ⟨?_, ?_, ?_⟩
    · intro hup j v hv hvq hvtag hvp
      rw [htasks] at hv
      rcases List.get_append_cases hv with hv | ⟨-, rfl⟩
      · exact hturn.alone hup j v hv hvq hvtag hvp
      · rw [finished hold (hvq.symm.trans hq) (hvtag.symm.trans htag)] at hup
        cases hup
    · intro hn
      rw [hfl, update_tag, hturn.inFlight hn]
      intro huq hutag
      have hup := unfinished hrep hold hn
      rw [finished hold huq hutag] at hup
      cases hup
    · rw [ha, hturn.answer]
  · refine ⟨?_, ?_, ?_⟩
    · intro _ j v hv hvq hvtag hvp
      rw [htasks] at hv
      rcases List.get_append_cases hv with hv | ⟨hj, -⟩
      · rw [finished hv (hvq.trans hq) (hvtag.trans htag)] at hvp
        cases hvp
      · rw [hj, hk]
    · intro _
      rw [hfl, hq, htag, Function.update_self, Function.update_self, hk]
    · rw [ha, hcm, hk]
      exact hunborn

theorem Turns.commit (hi : Turns s) (hf : Flight s) (hrep : ∀ t ∈ s.tasks, t.Reported) (ht : s.tasks[k]? = some t)
    (hp : t.pc.finished = false) (res : Int32) (pc : TaskPc) : Turns (s.completeIo k t res pc) := by
  have hturn := hi k t ht
  intro j u hu
  rcases completeIo_get ht hu with ⟨rfl, rfl⟩ | ⟨hne, hu⟩
  · refine ⟨?_, by simp [Task.completeIo], ?_⟩
    · intro _ i v hv hvq hvtag hvp
      rcases completeIo_get ht hv with ⟨rfl, -⟩ | ⟨-, hv⟩
      · rfl
      · exact hturn.alone hp i v hv hvq hvtag hvp
    · by_cases hn : t.commits = []
      · simp [State.completeIo, State.answer, State.setTask, Task.completeIo, hturn.inFlight hn, hn]
      · have hfl : s.inFlight t.q t.tag ≠ some j := by
          intro he
          obtain ⟨v, hv, -, -, hvn⟩ := hf.current _ _ _ he
          rw [ht] at hv
          cases hv
          exact hn hvn
        refine (answers_of_ne _ hfl).trans ?_
        rw [hturn.answer]
        simp [Task.completeIo, List.head?_append_of_ne_nil _ hn]
  · have hold := hi j u hu
    have apart : u.commits = [] → u.q = t.q → u.tag ≠ t.tag := fun hn hq htag =>
      hne (hturn.alone hp j u hu hq htag (unfinished hrep hu hn))
    refine ⟨?_, ?_, ?_⟩
    · intro hup i v hv hvq hvtag hvp
      rcases completeIo_get ht hv with ⟨rfl, rfl⟩ | ⟨-, hv⟩
      · exact hold.alone hup i t ht hvq hvtag hp
      · exact hold.alone hup i v hv hvq hvtag hvp
    · intro hn
      change Function.update s.inFlight t.q (Function.update (s.inFlight t.q) t.tag none) u.q u.tag = _
      rw [update_tag (apart hn), hold.inFlight hn]
    · refine (answers_of_ne _ ?_).trans hold.answer
      intro he
      obtain ⟨v, hv, hvq, hvtag, hvn⟩ := hf.current _ _ _ he
      rw [hu] at hv
      cases hv
      exact apart hvn hvq hvtag

theorem Turns.unseen (hi : Turns s) (h : Unseen s s') : Turns s' := by
  intro k t' ht'
  obtain ⟨t, ht, hkept⟩ := h.tasks k t' ht'
  have hold := hi k t ht
  refine ⟨?_, ?_, ?_⟩
  · intro hp j u' hu' hq htag hup
    obtain ⟨u, hu, hkept'⟩ := h.tasks j u' hu'
    rw [hkept.finished] at hp
    rw [hkept'.finished] at hup
    rw [hkept.q, hkept'.q] at hq
    rw [hkept.tag, hkept'.tag] at htag
    exact hold.alone hp j u hu hq htag hup
  · intro hn
    rw [h.inFlight, hkept.q, hkept.tag]
    exact hold.inFlight (hkept.commits ▸ hn)
  · rw [h.answers, hkept.commits]
    exact hold.answer

theorem Turns.step (hi : Turns s) (hf : Flight s) (hrep : ∀ t ∈ s.tasks, t.Reported) (hc : Timely s a)
    (h : Turning s a s') : Turns s' := by
  cases h with
  | deliver q tag iod buf i t s' hnone htasks hq htag hcm hp hfl ha =>
    exact hi.deliver hrep hc (hf.unborn _ le_rfl) htasks hq htag hcm hfl ha
  | commit k t res pc ht hp => exact hi.commit hf hrep ht hp res pc
  | unseen a s' hun => exact hi.unseen hun

theorem turn_reach (h : machine.Reach Timely s) : Turns s := by
  apply h.invariant (I := Turns)
  · rintro t ⟨iods, bufs, rfl⟩
    simp [Turns, start]
  · intro t a t' hr hi hc hs
    exact hi.step (flight_reach hr) (fun t ht => (report_reach hr t ht).reported) hc (step_cases hs).turning

theorem tagFree_commits (h : machine.Reach Timely s) {q tag : ℕ} (hfr : s.tagFree q tag = true)
    (ht : t ∈ s.tasks) (hq : t.q = q) (htag : t.tag = tag) : t.commits ≠ [] := by
  obtain ⟨k, hk⟩ := List.mem_iff_getElem?.mp ht
  intro hn
  have hfl := (turn_reach h k t hk).inFlight hn
  rw [hq, htag, Option.isNone_iff_eq_none.mp hfr] at hfl
  cases hfl

end GoUblksrv.Pool
