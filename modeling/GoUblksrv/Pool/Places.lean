import GoUblksrv.Pool.Stages

namespace GoUblksrv.Pool

variable {s s' : State} {a : Act} {t t' : Task} {o k : ℕ}

/-- `tokens` holds, for each token on an object's `Complete`, the request that the object
was with when it was put; `takes` pairs the request that received with the one it was put for. -/
structure Ledger where
  tokens : ℕ → List ℕ
  puts : List ℕ
  takes : List (ℕ × ℕ)

namespace Ledger

def empty : Ledger := ⟨fun _ => [], [], []⟩

variable (l : Ledger)

def put (o rid : ℕ) : Ledger where
  tokens := Function.update l.tokens o (l.tokens o ++ [rid])
  puts := l.puts ++ [rid]
  takes := l.takes

def take (o k : ℕ) : Ledger where
  tokens := Function.update l.tokens o (l.tokens o).tail
  puts := l.puts
  takes := l.takes ++ (l.tokens o).head?.toList.map fun rid => (k, rid)

end Ledger

def State.book (s : State) (a : Act) (l : Ledger) : Ledger :=
  match a with
  | .dispatchSend => s.dispatching.elim l fun o => l.put o (s.objs o).rid
  | .handlerSend j => s.handlers[j]?.elim l fun h => l.put h.obj (s.objs h.obj).rid
  | .task k => s.tasks[k]?.elim l fun t => if t.pc = .recvComplete then l.take t.obj k else l
  | .deliver .. | .dispatch | .handle .. => l

abbrev booked : Machine (State × Ledger) Act := machine.observe .empty State.book

def TaskPc.taken : TaskPc → ℕ
  | .sendRequest | .recvComplete => 0
  | _ => 1

def State.tokensOf (s : State) (t : Task) : ℕ :=
  t.pc.taken + if t.pc = .recvComplete then (s.objs t.obj).complete else 0

structure Balanced (s : State) (l : Ledger) : Prop where
  tokens : ∀ o, l.tokens o = List.replicate (s.objs o).complete (s.objs o).rid
  own : ∀ x ∈ l.takes, x.1 = x.2
  puts : ∀ k, l.puts.count k = s.tasks[k]?.elim 0 s.tokensOf
  takes : ∀ k, l.takes.count (k, k) = s.tasks[k]?.elim 0 fun t => t.pc.taken

theorem balanced_start (iods : ℕ → ℕ → IoDesc) (bufs : ℕ → ℕ → ℕ → UInt8) :
    Balanced (start iods bufs) .empty := by
  constructor
  · intro o
    simp [Ledger.empty, start, newRequest]
  · simp [Ledger.empty]
  · intro k
    simp [Ledger.empty, start]
  · intro k
    simp [Ledger.empty, start]

theorem tokensOf_congr (h : ∀ o, (s'.objs o).complete = (s.objs o).complete) :
    s'.tokensOf = s.tokensOf := by
  funext t
  simp only [State.tokensOf, h]

theorem Balanced.keep {l : Ledger} (hi : Balanced s l)
    (hobjs : ∀ o, (s'.objs o).complete = (s.objs o).complete)
    (hrid : ∀ o, 0 < (s.objs o).complete → (s'.objs o).rid = (s.objs o).rid)
    (htokens : ∀ k : ℕ, s'.tasks[k]?.elim 0 s'.tokensOf = s.tasks[k]?.elim 0 s.tokensOf)
    (htaken : ∀ k : ℕ, s'.tasks[k]?.elim 0 (fun t => t.pc.taken) =
      s.tasks[k]?.elim 0 fun t => t.pc.taken) : Balanced s' l := by
  constructor
  · intro o
    rw [hi.tokens, hobjs]
    rcases Nat.eq_zero_or_pos (s.objs o).complete with h | h
    · rw [h]
      rfl
    · rw [hrid o h]
  · exact hi.own
  · intro k
    rw [hi.puts, htokens]
  · intro k
    rw [hi.takes, htaken]

theorem Balanced.same {l : Ledger} (hi : Balanced s l) (htasks : s'.tasks = s.tasks)
    (hobjs : s'.objs = s.objs) : Balanced s' l := by
  apply hi.keep
  · intro o
    rw [hobjs]
  · intro o _
    rw [hobjs]
  · intro k
    have htokens : s'.tokensOf = s.tokensOf := by
      apply tokensOf_congr
      intro o
      rw [hobjs]
    rw [htasks, htokens]
  · intro k
    rw [htasks]

theorem Balanced.move {l : Ledger} (hi : Balanced s l) (ht : s.tasks[k]? = some t)
    (htasks : s'.tasks = s.tasks.set k t') (hobjs : s'.objs = s.objs)
    (htokens : s.tokensOf t' = s.tokensOf t) (htaken : t'.pc.taken = t.pc.taken) : Balanced s' l := by
  have get : ∀ {f : Task → ℕ}, f t' = f t → ∀ j : ℕ, s'.tasks[j]?.elim 0 f = s.tasks[j]?.elim 0 f := by
    intro f hf j
    rw [htasks, List.elim_set_of_get ht]
    split_ifs with hj
    · rw [hj, ht, hf]
      rfl
    · rfl
  apply hi.keep
  · intro o
    rw [hobjs]
  · intro o _
    rw [hobjs]
  · intro j
    have hof : s'.tokensOf = s.tokensOf := by
      apply tokensOf_congr
      intro o
      rw [hobjs]
    rw [hof]
    exact get htokens j
  · exact get htaken

/-- A token for one request is none for another, which has another object. -/
theorem Custody.tokensOf_other (hc : Custody s) (ht : s.tasks[k]? = some t) (ha : t.active = true)
    (hobjs : ∀ p ≠ t.obj, (s'.objs p).complete = (s.objs p).complete) {j : ℕ} (hj : j ≠ k) :
    s.tasks[j]?.elim 0 s'.tokensOf = s.tasks[j]?.elim 0 s.tokensOf := by
  cases hu : s.tasks[j]? with
  | none => rfl
  | some u =>
    simp only [Option.elim_some, State.tokensOf]
    split_ifs with hup
    · have huo : u.obj ≠ t.obj := by
        intro huo
        have hb : u.active = true := by simp [Task.active, hup]
        exact hj (hc.unique ht hu ha hb huo)
      rw [hobjs u.obj huo]
    · rfl

theorem Balanced.put {l : Ledger} (hi : Balanced s l) (hc : Custody s) (hw : 0 < s.work o)
    (htasks : s'.tasks = s.tasks)
    (hobjs : s'.objs = Function.update s.objs o { s.objs o with complete := (s.objs o).complete + 1 }) :
    Balanced s' (l.put o (s.objs o).rid) := by
  obtain ⟨t, ht, hto, hp⟩ := hc.owner hw
  have ha : t.active = true := by simp [Task.active, hp]
  constructor
  · intro p
    by_cases hpo : p = o
    · subst hpo
      simp [Ledger.put, hobjs, hi.tokens, List.replicate_succ']
    · simp [Ledger.put, hobjs, hpo, hi.tokens]
  · exact hi.own
  · intro k
    simp only [Ledger.put, List.count_append, List.count_singleton, hi.puts, htasks]
    by_cases hk : k = (s.objs o).rid
    · subst hk
      simp [ht, State.tokensOf, hp, hto, hobjs, TaskPc.taken]
    · have hne : ((s.objs o).rid == k) = false := by simpa using Ne.symm hk
      have hsame : ∀ p ≠ t.obj, (s'.objs p).complete = (s.objs p).complete := by
        intro p hp
        rw [hto] at hp
        simp [hobjs, hp]
      rw [hc.tokensOf_other ht ha hsame hk, hne]
      rfl
  · intro k
    rw [htasks]
    exact hi.takes k

theorem Balanced.take {l : Ledger} (hi : Balanced s l) (hc : Custody s) (ht : s.tasks[k]? = some t)
    (hp : t.pc = .recvComplete) (hlt : 0 < (s.objs t.obj).complete) :
    Balanced ((s.setTask k { t with pc := .check }).setObj t.obj
      { s.objs t.obj with complete := (s.objs t.obj).complete - 1 }) (l.take t.obj k) := by
  have ha : t.active = true := by simp [Task.active, hp]
  have hrid := hc.rid k t ht ha
  have hone : (s.objs t.obj).complete = 1 := by
    have := hc.work_le_one t.obj
    simp only [State.work] at this
    omega
  have htok : l.tokens t.obj = [k] := by
    rw [hi.tokens, hone, hrid]
    rfl
  constructor
  · intro o
    by_cases ho : o = t.obj
    · subst ho
      simp [Ledger.take, State.setObj, htok, hone]
    · simp [Ledger.take, State.setObj, State.setTask, ho, hi.tokens]
  · intro x hx
    simp only [Ledger.take, htok, List.head?_cons, Option.toList_some, List.map_cons, List.map_nil,
      List.mem_append, List.mem_singleton] at hx
    rcases hx with hx | rfl
    · exact hi.own x hx
    · rfl
  · intro j
    change l.puts.count j = ((s.tasks.set k _)[j]?).elim 0 _
    rw [hi.puts, List.elim_set_of_get ht]
    split_ifs with hj
    · rw [hj, ht]
      simp [State.tokensOf, hp, hone, TaskPc.taken]
    · refine (hc.tokensOf_other ht ha ?_ hj).symm
      intro p hne
      simp [State.setObj, State.setTask, hne]
  · intro j
    change (l.take t.obj k).takes.count (j, j) = ((s.tasks.set k _)[j]?).elim 0 _
    simp only [Ledger.take, htok, List.head?_cons, Option.toList_some, List.map_cons, List.map_nil,
      List.count_append, List.count_singleton, hi.takes]
    rw [List.elim_set_of_get ht]
    by_cases hj : j = k
    · rw [if_pos hj, hj, ht]
      simp [hp, TaskPc.taken]
    · rw [if_neg hj]
      simp [Ne.symm hj]

theorem balanced_step {l : Ledger} (hc : Custody s) (hi : Balanced s l) (h : Step s a s') :
    Balanced s' (s.book a l) := by
  cases h with
  | deliver q tag iod buf i x his hfr hx =>
    obtain ⟨-, hwork⟩ := hc.idle (List.mem_of_getElem? hx)
    have hcomplete : ∀ o, ((onRequestAsync s q tag iod x i).objs o).complete = (s.objs o).complete :=
      onRequestAsync_complete
    -- the new goroutine has no token, and neither has the number it gets
    have get : ∀ {f : Task → ℕ}, (∀ u : Task, u.pc = .sendRequest → f u = 0) → ∀ k : ℕ,
        (onRequestAsync s q tag iod x i).tasks[k]?.elim 0 f = s.tasks[k]?.elim 0 f := by
      intro f hf k
      rw [onRequestAsync, List.getElem?_append]
      split_ifs with hk
      · rfl
      · rw [List.getElem?_eq_none (Nat.le_of_not_lt hk), List.getElem?_singleton]
        split_ifs
        · exact hf _ rfl
        · rfl
    apply hi.keep
    · exact hcomplete
    · intro o hlt
      have hox : o ≠ x := by
        rintro rfl
        simp only [State.work] at hwork
        omega
      exact congrArg Request.rid (onRequestAsync_objs (i := i) hox)
    · intro k
      refine (congrArg (Option.elim _ 0) (tokensOf_congr hcomplete)).trans (get ?_ k)
      intro u hu
      simp [State.tokensOf, hu, TaskPc.taken]
    · apply get
      intro u hu
      rw [hu]
      rfl
  | spawn | unknown => exact hi.same rfl rfl
  | dispatchSend o hd hlt =>
    have hw : 0 < s.work o := by
      rw [State.work, hd, beq_self_eq_true, Bool.toNat_true]
      omega
    simp only [State.book, hd, Option.elim_some]
    exact hi.put hc hw rfl rfl
  | handle j h reply r hj hs hr =>
    have hran := runMethod_ran hr
    have hcomplete := setObj_field Request.complete hran.complete
    have get : ∀ {f : Task → ℕ}, (∀ u x, f { u with reply := some x } = f u) → ∀ k : ℕ,
        (s.record h.obj reply)[k]?.elim 0 f = s.tasks[k]?.elim 0 f := by
      intro f hf k
      rw [State.record, List.getElem?_modify]
      cases s.tasks[k]? with
      | none => rfl
      | some u =>
        simp only [Option.elim_some]
        split_ifs
        · exact hf u reply
        · rfl
    apply hi.keep
    · exact hcomplete
    · intro o _
      exact (setObj_same hran.same o).rid
    · intro k
      refine (congrArg (Option.elim _ 0) (tokensOf_congr hcomplete)).trans (get ?_ k)
      intro u x
      rfl
    · apply get
      intro u x
      rfl
  | handlerSend j h hj hs hlt =>
    simp only [State.book, hj, Option.elim_some]
    exact hi.put hc (work_pos_of_handler hj) rfl rfl
  | recvComplete k t ht hp hlt =>
    simp only [State.book, ht, Option.elim_some, if_pos hp]
    exact hi.take hc ht hp hlt
  | sendRequest k t ht hp =>
    have hw := hc.work_of_not_receiving ht (by simp [Task.active, hp]) (by simp [hp])
    have hzero : (s.objs t.obj).complete = 0 := by
      simp only [State.work] at hw
      omega
    simp only [State.book, ht, Option.elim_some, hp, reduceCtorEq, if_false]
    exact hi.move ht rfl rfl (by simp [State.tokensOf, hp, hzero, TaskPc.taken]) (by simp [hp, TaskPc.taken])
  | check k t failed ht hp =>
    simp only [State.book, ht, Option.elim_some, hp, reduceCtorEq, if_false]
    refine hi.move ht rfl rfl ?_ ?_
    · cases failed <;> simp [State.tokensOf, hp, TaskPc.taken]
    · cases failed <;> simp [hp, TaskPc.taken]
  | failComplete k t ht hp | copyRead k t ht hp | copySkip k t ht hp | finalRes k t res ht hp
  | complete k t res ht hp | putMsg k t ht hp =>
    simp only [State.book, ht, Option.elim_some, hp, reduceCtorEq, if_false]
    refine hi.move ht rfl rfl ?_ ?_
    · simp [State.tokensOf, Task.completeIo, hp, TaskPc.taken]
    · simp [Task.completeIo, hp, TaskPc.taken]

theorem balanced_reach {p : State × Ledger} (h : booked.Reach Machine.Free p) : Balanced p.1 p.2 := by
  apply h.invariant (I := fun p => Balanced p.1 p.2)
  · rintro ⟨s, l⟩ ⟨⟨iods, bufs, rfl⟩, rfl⟩
    exact balanced_start iods bufs
  · rintro ⟨s, l⟩ a p' hr hi _ hp
    obtain ⟨s', hs, rfl⟩ := Option.map_eq_some_iff.mp hp
    exact balanced_step (custody_reach hr.of_observe) hi (step_cases hs)

/-- The request `k` has the object: its goroutine has not put it back. -/
def State.Holds (s : State) (k o : ℕ) : Prop :=
  ∃ t, s.tasks[k]? = some t ∧ t.obj = o ∧ t.pc ≠ .ended

structure State.SendsFree (s : State) : Prop where
  sendRequest : ∀ (k : ℕ) (t : Task), s.tasks[k]? = some t → t.pc = .sendRequest →
    (step s (.task k)).isSome = true
  putMsg : ∀ (k : ℕ) (t : Task), s.tasks[k]? = some t → t.pc = .putMsg →
    (step s (.task k)).isSome = true
  handlerSend : ∀ (j : ℕ) (h : Handler), s.handlers[j]? = some h → h.sending = true →
    (step s (.handlerSend j)).isSome = true
  dispatchSend : ∀ o, s.dispatching = some o → (step s .dispatchSend).isSome = true

structure Pooled (s : State) (l : Ledger) : Prop where
  place : ∀ o < 512, (s.msgChan.count o = 1 ∧ ¬ ∃ k, s.Holds k o) ∨ (o ∉ s.msgChan ∧ ∃! k, s.Holds k o)
  only : (∀ o ∈ s.msgChan, o < 512) ∧ ∀ k o, s.Holds k o → o < 512
  empty : ∀ o ∈ s.msgChan, (s.objs o).complete = 0
  puts : ∀ (k : ℕ) (t : Task), s.tasks[k]? = some t →
    l.puts.count k ≤ 1 ∧ (t.pc = .ended → l.puts.count k = 1)
  takes : ∀ (k : ℕ) (t : Task), s.tasks[k]? = some t →
    (l.takes.filter fun x => x.1 == k).length ≤ 1 ∧
      (t.pc = .ended → (l.takes.filter fun x => x.1 == k).length = 1)
  own : ∀ x ∈ l.takes, x.1 = x.2
  sends : s.SendsFree

theorem length_le_of_count {l : List ℕ} (h : ∀ o, l.count o ≤ (List.range 512).count o) :
    l.length ≤ 512 := by
  have hsub := List.subperm_iff_count.mpr h
  simpa using hsub.length_le

theorem Custody.msgChan_length (hc : Custody s) : s.msgChan.length ≤ 512 := by
  apply length_le_of_count
  intro o
  have := hc.place o
  omega

theorem Custody.requests_length (hc : Custody s) : s.requests.length ≤ 512 := by
  apply length_le_of_count
  intro o
  have hplace := hc.place o
  have hwork := hc.work o
  have hle := receivers_le_users s o
  simp only [State.work] at hwork
  omega

theorem Custody.sendsFree (hc : Custody s) : s.SendsFree := by
  have hcap : 512 < chanCap := by decide
  constructor
  · intro k t ht hp
    have hlt : s.requests.length < chanCap := hc.requests_length.trans_lt hcap
    simp [Pool.step, ht, taskStep, hp, hlt]
  · intro k t ht hp
    have hlt : s.msgChan.length < chanCap := hc.msgChan_length.trans_lt hcap
    simp [Pool.step, ht, taskStep, hp, hlt]
  · intro j h hj hs
    have hone := hc.work_le_one h.obj
    have hpos := List.countP_pos_of_get (p := fun g => g.obj == h.obj) hj (by simp)
    have hzero : (s.objs h.obj).complete = 0 := by
      simp only [State.work] at hone
      omega
    simp [Pool.step, hj, hs, hzero]
  · intro o hd
    have hone := hc.work_le_one o
    have hzero : (s.objs o).complete = 0 := by
      simp only [State.work, hd] at hone
      simp at hone
      omega
    simp [Pool.step, hd, hzero]

theorem active_iff : t.active = true ↔ t.pc ≠ .ended := by
  unfold Task.active
  split <;> simp_all

theorem users_pos_iff : 0 < s.users o ↔ ∃ k, s.Holds k o := by
  rw [State.users, List.countP_pos_iff]
  constructor
  · rintro ⟨t, ht, h⟩
    simp only [Bool.and_eq_true, beq_iff_eq] at h
    obtain ⟨k, hk⟩ := List.mem_iff_getElem?.mp ht
    exact ⟨k, t, hk, h.2, active_iff.mp h.1⟩
  · rintro ⟨k, t, hk, ho, hp⟩
    exact ⟨t, List.mem_of_getElem? hk, by simp [active_iff.mpr hp, ho]⟩

theorem Custody.holds_unique (hc : Custody s) {j : ℕ} (hj : s.Holds j o) (hk : s.Holds k o) : j = k := by
  obtain ⟨t, ht, hto, hp⟩ := hj
  obtain ⟨u, hu, huo, hq⟩ := hk
  exact hc.unique hu ht (active_iff.mpr hq) (active_iff.mpr hp) (hto.trans huo.symm)

theorem Custody.pooled_place (hc : Custody s) (ho : o < 512) :
    (s.msgChan.count o = 1 ∧ ¬ ∃ k, s.Holds k o) ∨ (o ∉ s.msgChan ∧ ∃! k, s.Holds k o) := by
  have hplace := hc.place o
  rw [List.count_eq_one_of_mem List.nodup_range (List.mem_range.mpr ho)] at hplace
  rcases Nat.eq_zero_or_pos (s.users o) with hu | hu
  · left
    constructor
    · omega
    · rw [← users_pos_iff]
      omega
  · right
    constructor
    · rw [← List.count_eq_zero]
      omega
    · obtain ⟨k, hk⟩ := users_pos_iff.mp hu
      exact ⟨k, hk, fun j hj => hc.holds_unique hj hk⟩

theorem Custody.lt_of_place (hc : Custody s) (h : 0 < s.msgChan.count o + s.users o) : o < 512 := by
  rw [hc.place, List.count_pos_iff, List.mem_range] at h
  exact h

theorem takes_of {l : Ledger} (hi : Balanced s l) (k : ℕ) :
    (l.takes.filter fun x => x.1 == k).length = l.takes.count (k, k) := by
  rw [← List.countP_eq_length_filter, List.count]
  apply List.countP_congr
  intro x hx
  have := hi.own x hx
  obtain ⟨m, n⟩ := x
  simp only at this
  subst this
  simp

theorem Balanced.puts_le {l : Ledger} (hi : Balanced s l) (hc : Custody s) (ht : s.tasks[k]? = some t) :
    l.puts.count k ≤ 1 ∧ (t.pc = .ended → l.puts.count k = 1) := by
  have hone := hc.work_le_one t.obj
  simp only [State.work] at hone
  rw [hi.puts, ht]
  simp only [Option.elim_some, State.tokensOf]
  constructor
  · split_ifs with hp
    · rw [hp]
      change 0 + _ ≤ 1
      omega
    · unfold TaskPc.taken
      split <;> simp
  · intro hp
    rw [hp]
    rfl

theorem Balanced.takes_le {l : Ledger} (hi : Balanced s l) (ht : s.tasks[k]? = some t) :
    (l.takes.filter fun x => x.1 == k).length ≤ 1 ∧
      (t.pc = .ended → (l.takes.filter fun x => x.1 == k).length = 1) := by
  rw [takes_of hi, hi.takes, ht]
  simp only [Option.elim_some]
  constructor
  · unfold TaskPc.taken
    split <;> simp
  · intro hp
    rw [hp]
    rfl

/-- A read is served in full, then a flush and another read overlap. -/
def overlapping : List Act :=
  [.deliver 0 0 ⟨0, 8, 0, 0⟩ (fun _ => 0) 0, .task 0, .dispatch,
    .handle 0 ⟨4096, false, fun _ => 1⟩, .handlerSend 0] ++ List.replicate 6 (.task 0) ++
  [.deliver 0 0 ⟨2, 0, 0, 0⟩ (fun _ => 0) 511, .deliver 1 5 ⟨0, 8, 8, 0⟩ (fun _ => 0) 0, .task 1, .task 2,
    .dispatch, .dispatchSend, .dispatch, .task 1]

def overlapped : Option (State × Ledger) :=
  booked.run (start (fun _ _ => ⟨0, 0, 0, 0⟩) fun _ _ _ => 0, .empty) overlapping

set_option maxRecDepth 8000

theorem overlapped_runs : overlapped.isSome = true := by decide +kernel

end GoUblksrv.Pool
