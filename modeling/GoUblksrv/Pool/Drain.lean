import GoUblksrv.Lib.Progress
import GoUblksrv.Pool.Places
import GoUblksrv.Pool.Outcome

namespace GoUblksrv.Pool

variable {s s' : State} {a : Act} {t t' : Task} {k : ℕ}

/-- The steps that remain for a goroutine and, before its send, for its message. -/
def TaskPc.rank : TaskPc → ℕ
  | .sendRequest => 11
  | .recvComplete => 7
  | .check => 6
  | .failComplete => 5
  | .copyOut => 4
  | .finalRes => 3
  | .complete _ => 2
  | .putMsg => 1
  | .ended => 0

def Task.rank (t : Task) : ℕ := t.pc.rank

def Handler.rank (h : Handler) : ℕ := if h.sending then 1 else 2

def State.remaining (s : State) : ℕ :=
  (s.tasks.map Task.rank).sum + 3 * s.requests.length + s.dispatching.toList.length +
    (s.handlers.map Handler.rank).sum

theorem sum_rank_set (t' : Task) (ht : s.tasks[k]? = some t) {pc pc' : TaskPc} (hp : t.pc = pc)
    (hp' : t'.pc = pc') :
    ((s.tasks.set k t').map Task.rank).sum + pc.rank = (s.tasks.map Task.rank).sum + pc'.rank := by
  have hsum := List.sum_map_set_of_get (b := t') (f := Task.rank) ht
  simp only [Task.rank, hp, hp'] at hsum
  exact hsum

theorem map_rank_record (o : ℕ) (reply : Reply) :
    (s.record o reply).map Task.rank = s.tasks.map Task.rank := by
  apply List.ext_getElem?
  intro i
  rw [List.getElem?_map, List.getElem?_map, State.record, List.getElem?_modify]
  cases s.tasks[i]? with
  | none => rfl
  | some t =>
    simp only [Option.map_some]
    split_ifs <;> rfl

theorem remaining_step (h : Step s a s') (hd : a.delivers = false) : s'.remaining < s.remaining := by
  have move : ∀ {u : State} {k : ℕ} {t t' : Task}, s.tasks[k]? = some t → t'.pc.rank < t.pc.rank →
      u.tasks = s.tasks.set k t' → u.requests = s.requests → u.dispatching = s.dispatching →
      u.handlers = s.handlers → u.remaining < s.remaining := by
    intro u k t t' ht hlt htasks hreq hdis hh
    have hsum := sum_rank_set t' ht rfl rfl
    simp only [State.remaining, htasks, hreq, hdis, hh]
    omega
  cases h with
  | deliver => cases hd
  | spawn o rest m hdis hreq hm =>
    simp [State.remaining, hreq, hdis, Handler.rank]
    omega
  | unknown o rest hdis hreq hm =>
    simp [State.remaining, hreq, hdis]
    omega
  | dispatchSend o hdis hlt =>
    simp [State.remaining, State.setObj, hdis]
  | handle j h reply r hj hs hr =>
    have hsum := List.sum_map_set_of_get (b := { h with sending := true }) (f := Handler.rank) hj
    have hrank : h.rank = 2 := by simp [Handler.rank, hs]
    have hrank' : Handler.rank { h with sending := true } = 1 := rfl
    simp only [State.remaining, State.setObj, map_rank_record]
    omega
  | handlerSend j h hj hs hlt =>
    have hsum := List.sum_map_eraseIdx_of_get (f := Handler.rank) hj
    have hrank : h.rank = 1 := by simp [Handler.rank, hs]
    simp only [State.remaining, State.setObj]
    omega
  | sendRequest k t ht hp hlt =>
    have hsum := sum_rank_set { t with pc := .recvComplete } ht hp rfl
    simp only [TaskPc.rank] at hsum
    simp only [State.remaining, State.setTask, List.length_append, List.length_singleton]
    omega
  | check k t failed ht hp hf =>
    refine move ht ?_ rfl rfl rfl rfl
    rw [hp]
    cases failed
    · exact Nat.lt_of_sub_pos (by decide : 0 < TaskPc.check.rank - TaskPc.copyOut.rank)
    · exact Nat.lt_add_one _
  | recvComplete k t ht hp | failComplete k t ht hp | copyRead k t ht hp | copySkip k t ht hp
  | finalRes k t res ht hp | complete k t res ht hp | putMsg k t ht hp =>
    refine move ht ?_ rfl rfl rfl rfl
    rw [hp]
    exact Nat.lt_add_one _

theorem rank_le (t : Task) : t.rank + 4 * t.receives.toNat ≤ 11 * t.active.toNat := by
  unfold Task.rank Task.receives Task.active TaskPc.rank
  split <;> simp_all

/-- Each object on its way to `Complete` is counted with the goroutine that waits for it. -/
theorem sum_rank_le (l : List Task) :
    (l.map Task.rank).sum + 4 * l.countP Task.receives ≤ 11 * l.countP Task.active := by
  induction l with
  | nil => simp
  | cons t l ih =>
    have ht := rank_le t
    simp only [List.map_cons, List.sum_cons, List.countP_cons]
    cases hr : t.receives <;> cases ha : t.active <;> simp [hr, ha] at ht ⊢ <;> omega

theorem Custody.active_le (hc : Custody s) : s.tasks.countP Task.active ≤ 512 := by
  have hlen : ((s.tasks.filter Task.active).map Task.obj).length ≤ 512 := by
    apply length_le_of_count
    intro o
    have hplace := hc.place o
    have huse : ((s.tasks.filter Task.active).map Task.obj).count o = s.users o := by
      rw [List.count, List.countP_map, List.countP_filter, State.users]
      apply List.countP_congr
      intro t _
      simp [and_comm]
    omega
  rwa [List.length_map, ← List.countP_eq_length_filter] at hlen

theorem Custody.waiting_le (hc : Custody s) :
    s.requests.length + s.dispatching.toList.length + s.handlers.length ≤
      s.tasks.countP Task.receives := by
  have hsub : (s.requests ++ s.dispatching.toList ++ s.handlers.map Handler.obj).Subperm
      ((s.tasks.filter Task.receives).map Task.obj) := by
    rw [List.subperm_iff_count]
    intro o
    have hwork := hc.work o
    have hrec : ((s.tasks.filter Task.receives).map Task.obj).count o = s.receivers o := by
      rw [List.count, List.countP_map, List.countP_filter, State.receivers]
      apply List.countP_congr
      intro t _
      simp [and_comm]
    have hh : (s.handlers.map Handler.obj).count o = s.handlers.countP fun h => h.obj == o := by
      rw [List.count, List.countP_map]
      rfl
    have hd : s.dispatching.toList.count o = (s.dispatching == some o).toNat := by
      cases s.dispatching with
      | none => rfl
      | some x =>
        rw [Option.toList_some, List.count_singleton]
        by_cases hx : x = o
        · simp [hx]
        · have hne : (x == o) = false := beq_false_of_ne hx
          simp [hne]
    rw [hrec, List.count_append, List.count_append, hh, hd, ← hwork, State.work]
    omega
  have hle := hsub.length_le
  simpa [← List.countP_eq_length_filter, add_assoc] using hle

theorem handlers_rank_le (l : List Handler) : (l.map Handler.rank).sum ≤ 2 * l.length := by
  induction l with
  | nil => simp
  | cons h l ih =>
    have hh : h.rank ≤ 2 := by
      unfold Handler.rank
      split_ifs <;> decide
    simp only [List.map_cons, List.sum_cons, List.length_cons]
    omega

theorem Custody.remaining_le (hc : Custody s) : s.remaining ≤ 11 * 512 := by
  have hact := hc.active_le
  have hwait := hc.waiting_le
  have hsum := sum_rank_le s.tasks
  have hh := handlers_rank_le s.handlers
  simp only [State.remaining]
  omega

/-- The steps that wait neither for the driver nor for a handler. -/
def Act.unaided : Act → Bool
  | .deliver .. | .handle .. => false
  | .dispatch | .dispatchSend | .handlerSend _ | .task _ => true

/-- The handler has been called for the request of `t` and has not returned. -/
def State.InHandler (s : State) (t : Task) : Prop :=
  t.pc = .recvComplete ∧ ∃ h ∈ s.handlers, h.obj = t.obj ∧ h.sending = false

structure Drained (s : State) : Prop where
  ended : ∀ t ∈ s.tasks, t.pc = .ended
  reported : ∀ t ∈ s.tasks, if t.failed then ∃ res, t.results = [eio, res] else t.results = [t.finalRes]
  called : ∀ t ∈ s.tasks, t.opType ≠ -1 → t.reply.isSome = true
  requests : s.requests = []
  dispatching : s.dispatching = none
  handlers : s.handlers = []
  msgChan : s.msgChan.Perm (List.range 512)
  complete : ∀ o, (s.objs o).complete = 0
  tagFree : ∀ q tag, s.tagFree q tag = true

theorem isSome_ne_none {α : Type*} {x : Option α} (h : x.isSome = true) : x ≠ none := by
  rintro rfl
  cases h

theorem dispatch_enabled (hd : s.dispatching = none) (hr : s.requests ≠ []) :
    (step s .dispatch).isSome = true := by
  obtain ⟨o, rest, hr⟩ := List.exists_cons_of_ne_nil hr
  simp only [step, handleRequests, hd, hr]
  cases methodOf (s.objs o).type <;> rfl

theorem Custody.task_enabled (hc : Custody s) (ht : s.tasks[k]? = some t) (ha : t.active = true)
    (hp : t.pc = .recvComplete → 0 < (s.objs t.obj).complete) : (Pool.step s (.task k)).isSome = true := by
  cases hpc : t.pc with
  | sendRequest => exact hc.sendsFree.sendRequest k t ht hpc
  | putMsg => exact hc.sendsFree.putMsg k t ht hpc
  | recvComplete => simp [Pool.step, ht, taskStep, hpc, hp hpc]
  | copyOut =>
    simp only [Pool.step, ht, taskStep, hpc, Option.bind_some]
    split_ifs <;> rfl
  | ended => simp [Task.active, hpc] at ha
  | check | failComplete | finalRes | complete => simp [Pool.step, ht, taskStep, hpc]

theorem Custody.handle_enabled (hc : Custody s) {j : ℕ} {h : Handler} {reply : Reply}
    (hj : s.handlers[j]? = some h) (hs : h.sending = false)
    (hn : h.method = .read ∨ h.method = .write → reply.n ≤ argLen (s.objs h.obj) h.method) :
    (Pool.step s (.handle j reply)).isSome = true := by
  have hmem := List.mem_of_getElem? hj
  obtain ⟨t, ht, hto, hp⟩ := hc.owner (work_pos_of_handler hj)
  have ha : t.active = true := by simp [Task.active, hp]
  have hcap := hc.captured _ t ht
  have hrun : ∃ r, runMethod (s.objs h.obj) h.method reply = some r := by
    cases hm : h.method with
    | read =>
      have hsize : (s.objs h.obj).size.toNat ≤ rDataCap := by
        have hmeth := hc.methods h hmem
        rw [← hto, (hc.loaded _ t ht ha).type, hcap.opType, hm] at hmeth
        rcases reqToLonghornCmdType_cases t.iod with ⟨hop, -⟩ | ⟨-, hty⟩ | ⟨-, hty⟩ | hty
        · have hle := issued_nrSectors hcap.issued (.inl hop)
          rw [← hto, (hc.loaded _ t ht ha).size, shl9_toNat (hle.trans_lt (by decide))]
          change _ ≤ 524288
          omega
        · exact absurd (hty ▸ hmeth) (by decide)
        · exact absurd (hty ▸ hmeth) (by decide)
        · exact absurd (hty ▸ hmeth) (by decide)
      rw [hm] at hn
      exact ⟨_, if_pos ⟨hsize, hn (.inl rfl)⟩⟩
    | write =>
      rw [hm] at hn
      exact ⟨_, if_pos (hn (.inr rfl))⟩
    | unmap | ping => exact ⟨_, rfl⟩
  obtain ⟨r, hr⟩ := hrun
  simp [Pool.step, hj, hs, hr]

section

variable (hc : Custody s) (hq : machine.Quiet (fun a => a.unaided = true) s)

include hc hq

theorem quiet_dispatching : s.dispatching = none := by
  by_contra hne
  obtain ⟨o, ho⟩ := Option.ne_none_iff_exists'.mp hne
  exact isSome_ne_none (hc.sendsFree.dispatchSend o ho) (hq .dispatchSend rfl)

theorem quiet_requests : s.requests = [] := by
  by_contra hne
  exact isSome_ne_none (dispatch_enabled (quiet_dispatching hc hq) hne) (hq .dispatch rfl)

theorem quiet_handlers : ∀ h ∈ s.handlers, h.sending = false := by
  intro h hm
  obtain ⟨j, hj⟩ := List.mem_iff_getElem?.mp hm
  by_contra hs
  exact isSome_ne_none (hc.sendsFree.handlerSend j h hj (by simpa using hs)) (hq (.handlerSend j) rfl)

theorem quiet_tasks : ∀ t ∈ s.tasks, t.pc = .ended ∨ s.InHandler t := by
  intro t hm
  obtain ⟨k, hk⟩ := List.mem_iff_getElem?.mp hm
  by_cases hp : t.pc = .ended
  · exact .inl hp
  · right
    have ha := active_iff.mpr hp
    have hstuck : ¬ (t.pc = .recvComplete → 0 < (s.objs t.obj).complete) := by
      intro hready
      exact isSome_ne_none (hc.task_enabled hk ha hready) (hq (.task k) rfl)
    obtain ⟨hrec, hzero⟩ := Classical.not_imp.mp hstuck
    refine ⟨hrec, ?_⟩
    have hwork : 0 < s.work t.obj := by
      rw [hc.work, State.receivers, List.countP_pos_iff]
      exact ⟨t, hm, by simp [Task.receives, hrec]⟩
    have hnone : ((none : Option ℕ) == some t.obj).toNat = 0 := rfl
    rw [State.work, quiet_requests hc hq, quiet_dispatching hc hq, List.count_nil, hnone, Nat.zero_add,
      Nat.eq_zero_of_not_pos hzero, Nat.add_zero] at hwork
    obtain ⟨h, hh, ho⟩ := List.countP_pos_iff.mp hwork
    exact ⟨h, hh, by simpa using ho, quiet_handlers hc hq h hh⟩

end

theorem drained_of_handlers (h : machine.Reach Timely s)
    (hu : machine.Quiet (fun a => a.unaided = true) s) (hhand : s.handlers = []) : Drained s := by
  have hc := custody_reach h
  have hended : ∀ t ∈ s.tasks, t.pc = .ended := by
    intro t ht
    apply (quiet_tasks hc hu t ht).resolve_right
    rintro ⟨-, g, hg, -⟩
    rw [hhand] at hg
    cases hg
  have huse : ∀ o, s.users o = 0 := by
    intro o
    rw [State.users, List.countP_eq_zero]
    intro t ht
    simp [Task.active, hended t ht]
  have hrec : ∀ o, s.receivers o = 0 := fun o => Nat.le_zero.mp (huse o ▸ receivers_le_users s o)
  constructor
  · exact hended
  · intro t ht
    have hr := (report_reach h t ht).reported
    rwa [Task.Reported, hended t ht] at hr
  · intro t ht
    obtain ⟨k, hk⟩ := List.mem_iff_getElem?.mp ht
    exact (verdict_reach h k t hk (by simp [hended t ht, TaskPc.decided])).called
  · exact quiet_requests hc hu
  · exact quiet_dispatching hc hu
  · exact hhand
  · rw [List.perm_iff_count]
    intro o
    have hplace := hc.place o
    rwa [huse o, Nat.add_zero] at hplace
  · intro o
    have hwork := hc.work o
    rw [hrec o, State.work] at hwork
    omega
  · intro q tag
    rw [State.tagFree, Option.isNone_iff_eq_none, Option.eq_none_iff_forall_ne_some]
    intro k hk
    obtain ⟨t, ht, -, -, hn⟩ := (flight_reach h).current q tag k hk
    have hm := List.mem_of_getElem? ht
    exact (report_reach h t hm).reported.commits_ne_nil (by rw [hended t hm]; rfl) hn

end GoUblksrv.Pool
