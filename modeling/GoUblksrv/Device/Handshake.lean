import GoUblksrv.Device.Daemon
import GoUblksrv.Device.Routing

/-!
The shutdown handshake on `Done`. Every queue thread that leaves its loop sends once and
every `Delete` receives once, from whoever sends.
-/

namespace GoUblksrv.Device

variable {queues : ℕ → ℤ} {ids : ℤ → Bool} {s s' : State} {a : Act} {σ σ' : Session}
  {C : State → Act → Prop} {k : ℕ}

def ThreadPc.left : ThreadPc → Bool
  | .notify | .exited => true
  | _ => false

def Session.count (p : ThreadPc → Bool) (σ : Session) : ℕ := σ.threads.countP p

def State.count (s : State) (p : ThreadPc → Bool) : ℕ := (s.sessions.map (Session.count p)).sum

def State.returned (s : State) : ℕ := s.deletes.countP fun x => x.caller != .waiting

theorem count_left (s : State) :
    s.count ThreadPc.left = s.count (· == .notify) + s.count (· == .exited) := by
  have hl : ∀ l : List ThreadPc,
      l.countP ThreadPc.left = l.countP (· == .notify) + l.countP (· == .exited) := by
    intro l
    induction l with
    | nil => rfl
    | cons p l ih => cases p <;> simp [List.countP_cons, ThreadPc.left, ih] <;> omega
  simp only [State.count]
  induction s.sessions with
  | nil => rfl
  | cons σ l ih =>
    simp only [List.map_cons, List.sum_cons, Session.count, hl] at ih ⊢
    omega

theorem Local.exited (h : Local queues ids σ σ') :
    σ'.count (· == .exited) = σ.count (· == .exited) := by
  cases h with
  | createThread => simp [Session.count, List.countP_append]
  | threadInit j ok hj => exact List.countP_set_keep hj (by cases ok <;> rfl)
  | threadStop j hj => exact List.countP_set_keep hj rfl
  | _ => rfl

theorem received_set {u : State} (hs : u.sessions = s.sessions.set k σ') (hd : u.deletes = s.deletes)
    (hk : s.sessions[k]? = some σ) (h : σ'.count (· == .exited) = σ.count (· == .exited))
    (hi : s.count (· == .exited) = s.returned) : u.count (· == .exited) = u.returned := by
  have := List.sum_map_set_of_get (b := σ') (f := Session.count (· == .exited)) hk
  rw [State.count, State.returned, hs, hd]
  simp only [State.count, State.returned] at hi
  omega

theorem returned_set {u : State} {m : ℕ} {x y : Deletion} (hd : u.deletes = s.deletes.set m y)
    (hm : s.deletes[m]? = some x) (h : (y.caller != .waiting) = (x.caller != .waiting)) :
    u.returned = s.returned := by
  rw [State.returned, hd]
  exact List.countP_set_keep hm h

theorem count_stopDev (s : State) (id : ℤ) (p : ThreadPc → Bool) : (s.stopDev id).count p = s.count p := by
  rw [State.count, State.stopDev, List.map_map, State.count]
  refine congrArg List.sum (List.map_congr_left fun σ _ => ?_)
  simp only [Function.comp, Session.stop]
  split_ifs <;> rfl

theorem received_step (hi : s.count (· == .exited) = s.returned) (h : Step queues s a s') :
    s'.count (· == .exited) = s'.returned := by
  cases h with
  | start d => simpa [State.count, State.returned, Session.new, Session.count] using hi
  | fill k ok σ i hk => exact received_set rfl rfl hk rfl hi
  | locally _ k σ σ' hk hl => exact received_set rfl rfl hk hl.exited hi
  | addDevOk k ans σ hk | setId k ans σ hk | register k ans σ hk | unregister k ans σ hk
  | closeDone k ans σ hk => exact received_set rfl rfl hk rfl hi
  | request | takeMsg | putMsg => exact hi
  | delete d => simpa [State.count, State.returned, List.countP_append] using hi
  | devDelMove m ok x pc hm | delDev m x hm =>
    refine hi.trans (Eq.symm ?_)
    exact returned_set rfl hm rfl
  | remove m ok x hm hc =>
    refine hi.trans (Eq.symm ?_)
    apply returned_set rfl hm
    rw [hc]
    cases ok <;> rfl
  | stopDev m x hm =>
    refine (count_stopDev s x.id _).trans (hi.trans (Eq.symm ?_))
    exact returned_set rfl hm rfl
  | removed id => exact (count_stopDev s id _).trans hi
  | handshake m k j x σ hm hk hc hj =>
    have hs := List.sum_map_set_of_get (b := { σ with threads := σ.threads.set j .exited })
      (f := Session.count (· == .exited)) hk
    have ht := List.countP_set_of_get (b := ThreadPc.exited) (p := (· == .exited)) hj
    have hd := List.countP_set_of_get (b := { x with caller := .remove, got := some σ.dev })
      (p := fun x => x.caller != .waiting) hm
    rw [hc] at hd
    change _ + 0 = _ + 1 at ht
    change _ + 0 = _ + 1 at hd
    simp only [Session.count, State.count, State.returned, State.setDelete, State.setSession] at *
    omega

theorem received_reach (h : (machine queues).Reach C s) : s.count (· == .exited) = s.returned := by
  refine h.invariant ?_ fun t a t' _ hi _ hs => received_step hi (step_cases hs)
  rintro t ⟨devices, ids, rfl⟩
  rfl

/-- A queue of the session is stopping and has not been left by its thread. -/
def Session.leaving (σ : Session) : Bool :=
  σ.stopped && (σ.threads.any (fun p => !p.done) || σ.pc == .createThreads)

/-- A stop of `id` leaves no `Delete` waiting that is not for the device that stops. -/
def StopsOwn (s : State) (id : ℤ) : Prop :=
  ∀ σ ∈ s.sessions, (σ.stop id).leaving = true → ∀ y ∈ s.deletes, y.caller = .waiting → y.dev = σ.dev

/-- No device is started twice, and the shutdowns of two devices do not overlap. -/
def Separate (s : State) : Act → Prop
  | .start d => ∀ σ ∈ s.sessions, σ.dev ≠ d
  | .delete d => ∀ σ ∈ s.sessions, σ.leaving = true → σ.dev = d
  | .devDel m _ => ∀ x ∈ s.deletes[m]?, x.pc = .stop → StopsOwn s x.id
  | .removed id => StopsOwn s id
  | _ => True

instance (id : ℤ) : Decidable (StopsOwn s id) :=
  inferInstanceAs (Decidable (∀ σ ∈ s.sessions, (σ.stop id).leaving = true → ∀ y ∈ s.deletes, _))

instance : Decidable (Separate s a) :=
  match a with
  | .start d => inferInstanceAs (Decidable (∀ σ ∈ s.sessions, σ.dev ≠ d))
  | .delete d => inferInstanceAs (Decidable (∀ σ ∈ s.sessions, _ → σ.dev = d))
  | .devDel m _ => inferInstanceAs (Decidable (∀ x ∈ s.deletes[m]?, _ → StopsOwn s x.id))
  | .removed id => inferInstanceAs (Decidable (StopsOwn s id))
  | .caller .. | .startup .. | .thread .. | .request .. | .takeMsg _ | .putMsg _ | .handshake ..
  | .remove .. => .isTrue trivial

/-- A thread sends only after its queue has been stopped, and a stopped session has threads. -/
structure Stopped (σ : Session) : Prop where
  threads : σ.stopped = true → σ.threads ≠ []
  notify : .notify ∈ σ.threads → σ.stopped = true

theorem Stopped.local_step (hi : Stopped σ) (h : Local queues ids σ σ') : Stopped σ' := by
  cases h with
  | createThread =>
    refine ⟨fun _ => by simp, ?_⟩
    intro hn
    exact hi.notify (by simpa using hn)
  | threadInit j ok hj =>
    refine ⟨fun hs => by simpa using hi.threads hs, ?_⟩
    intro hn
    rcases List.mem_or_eq_of_mem_set hn with hn | hn
    · exact hi.notify hn
    · cases ok <;> cases hn
  | threadStop j hj hs => exact ⟨fun hs => by simpa using hi.threads hs, fun _ => hs⟩
  | _ => exact ⟨hi.threads, hi.notify⟩

theorem stopped_step (hi : ∀ σ ∈ s.sessions, Stopped σ) (h : Step queues s a s') :
    ∀ σ ∈ s'.sessions, Stopped σ := by
  have hget : ∀ {k : ℕ} {σ : Session}, s.sessions[k]? = some σ → Stopped σ :=
    fun hk => hi _ (List.mem_of_getElem? hk)
  cases h with
  | start d =>
    intro σ hσ
    rcases List.mem_append.mp hσ with hσ | hσ
    · exact hi σ hσ
    · rw [List.mem_singleton.mp hσ]
      exact ⟨nofun, nofun⟩
  | locally _ k σ σ' hk hl => exact List.forall_mem_set hi ((hget hk).local_step hl)
  | fill k ok σ i hk | addDevOk k ans σ hk | setId k ans σ hk | register k ans σ hk
  | unregister k ans σ hk | closeDone k ans σ hk =>
    exact List.forall_mem_set hi ⟨(hget hk).threads, (hget hk).notify⟩
  | handshake m k j x σ hm hk hc hj =>
    refine List.forall_mem_set hi ⟨fun hs => by simpa using (hget hk).threads hs, fun _ => ?_⟩
    exact (hget hk).notify (List.mem_of_getElem? hj)
  | stopDev | removed =>
    intro σ hσ
    obtain ⟨τ, hτ, rfl⟩ := List.mem_map.mp hσ
    unfold Session.stop
    split_ifs with hid
    · exact ⟨fun _ => hid.2, fun _ => rfl⟩
    · exact hi τ hτ
  | _ => exact hi

theorem stopped_reach (h : (machine queues).Reach C s) : ∀ σ ∈ s.sessions, Stopped σ := by
  refine h.invariant (I := fun s => ∀ σ ∈ s.sessions, Stopped σ) ?_ fun t a t' _ hi _ hs =>
    stopped_step hi (step_cases hs)
  rintro t ⟨devices, ids, rfl⟩
  simp [boot]

theorem leaving_iff : σ.leaving = true ↔
    σ.stopped = true ∧ ((∃ p ∈ σ.threads, p.done = false) ∨ σ.pc = .createThreads) := by
  simp [Session.leaving]

theorem Local.leaving {devs : ℕ → Dev} (h : Local queues ids σ σ') (hi : Ident devs σ) (hst : Stopped σ)
    (hl : σ'.leaving = true) : σ.leaving = true ∧ σ'.dev = σ.dev := by
  rw [leaving_iff] at hl ⊢
  obtain ⟨hs, hl⟩ := hl
  cases h with
  | mkdirErr | recv => exact ⟨⟨hs, hl⟩, rfl⟩
  | devInitOk hp =>
    exact absurd (hi.threads (by rw [hp]; rfl)) (hst.threads hs)
  | createThread hp => exact ⟨⟨hs, .inr hp⟩, rfl⟩
  | threadInit j ok hj => exact ⟨⟨hs, .inl ⟨_, List.mem_of_getElem? hj, rfl⟩⟩, rfl⟩
  | threadStop j hj => exact ⟨⟨hs, .inl ⟨_, List.mem_of_getElem? hj, rfl⟩⟩, rfl⟩
  | send err pc hpc =>
    rcases hpc with ⟨hp, rfl, rfl⟩ | ⟨hp, rfl, rfl⟩ | ⟨hp, rfl, rfl⟩ | ⟨hp, rfl, rfl⟩ <;>
      exact ⟨⟨hs, .inl (hl.resolve_right nofun)⟩, rfl⟩
  | getAffinity ok | infoArray ok =>
    cases ok <;> exact ⟨⟨hs, .inl (hl.resolve_right nofun)⟩, rfl⟩
  | _ => exact ⟨⟨hs, .inl (hl.resolve_right nofun)⟩, rfl⟩

structure Separated (s : State) : Prop where
  leaving : ∀ σ ∈ s.sessions, σ.leaving = true → ∀ x ∈ s.deletes, x.caller = .waiting → x.dev = σ.dev
  own : ∀ x ∈ s.deletes, x.caller ≠ .waiting → x.got = some x.dev

theorem Separated.set (hi : Separated s) (hd : s'.deletes = s.deletes) (hk : s.sessions[k]? = some σ)
    (hs : s'.sessions = s.sessions.set k σ')
    (h : σ'.leaving = true → σ.leaving = true ∧ σ'.dev = σ.dev) : Separated s' := by
  refine ⟨?_, hd ▸ hi.own⟩
  rw [hd, hs]
  apply List.forall_mem_set hi.leaving
  intro hl
  obtain ⟨hold, hdev⟩ := h hl
  rw [hdev]
  exact hi.leaving σ (List.mem_of_getElem? hk) hold

theorem Separated.setDelete (hi : Separated s) {m : ℕ} {x y : Deletion} (hm : s.deletes[m]? = some x)
    (hd : s'.deletes = s.deletes.set m y) (hs : s'.sessions = s.sessions) (hdev : y.dev = x.dev)
    (hgot : y.got = x.got) (hc : y.caller = .waiting ↔ x.caller = .waiting) : Separated s' := by
  have hmem := List.mem_of_getElem? hm
  refine ⟨?_, ?_⟩
  · rw [hd, hs]
    intro σ hσ hl
    apply List.forall_mem_set (hi.leaving σ hσ hl)
    intro hw
    rw [hdev]
    exact hi.leaving σ hσ hl x hmem (hc.mp hw)
  · rw [hd]
    apply List.forall_mem_set hi.own
    intro hw
    rw [hgot, hdev]
    exact hi.own x hmem fun h => hw (hc.mpr h)

theorem Separated.stopDev (hi : Separated s) {id : ℤ} (hown : StopsOwn s id)
    (hd : s'.deletes = s.deletes) (hs : s'.sessions = s.sessions.map (Session.stop id)) : Separated s' := by
  refine ⟨?_, hd ▸ hi.own⟩
  rw [hd, hs]
  intro σ hσ hl x hx hw
  obtain ⟨τ, hτ, rfl⟩ := List.mem_map.mp hσ
  rw [(τ.stop_serves id).2.2]
  exact hown τ hτ hl x hx hw

theorem separated_step (hi : Separated s) (hid : ∀ σ ∈ s.sessions, Ident s.devs σ)
    (hst : ∀ σ ∈ s.sessions, Stopped σ) (hc : Separate s a) (h : Step queues s a s') : Separated s' := by
  cases h with
  | start d =>
    refine ⟨?_, hi.own⟩
    intro σ hσ hl
    rcases List.mem_append.mp hσ with hσ | hσ
    · exact hi.leaving σ hσ hl
    · rw [List.mem_singleton.mp hσ] at hl
      cases hl
  | fill k ok σ i hk => exact hi.set rfl hk rfl fun h => ⟨h, rfl⟩
  | locally _ k σ σ' hk hl =>
    have hmem := List.mem_of_getElem? hk
    exact hi.set rfl hk rfl (hl.leaving (hid σ hmem) (hst σ hmem))
  | addDevOk k ans σ hk | setId k ans σ hk | register k ans σ hk | unregister k ans σ hk
  | closeDone k ans σ hk =>
    refine hi.set rfl hk rfl ?_
    intro hl
    rw [leaving_iff] at hl ⊢
    exact ⟨⟨hl.1, .inl (hl.2.resolve_right nofun)⟩, rfl⟩
  | request | takeMsg | putMsg => exact ⟨hi.leaving, hi.own⟩
  | delete d =>
    refine ⟨?_, ?_⟩
    · intro σ hσ hl x hx hw
      rcases List.mem_append.mp hx with hx | hx
      · exact hi.leaving σ hσ hl x hx hw
      · rw [List.mem_singleton.mp hx]
        exact (hc σ hσ hl).symm
    · intro x hx hw
      rcases List.mem_append.mp hx with hx | hx
      · exact hi.own x hx hw
      · rw [List.mem_singleton.mp hx] at hw
        exact absurd rfl hw
  | devDelMove m ok x pc hm => exact hi.setDelete hm rfl rfl rfl rfl Iff.rfl
  | delDev m x hm => exact hi.setDelete hm rfl rfl rfl rfl Iff.rfl
  | remove m ok x hm hr => exact hi.setDelete hm rfl rfl rfl rfl (by simp [hr])
  | stopDev m x hm hp =>
    have hstop : Separated (s.stopDev x.id) := hi.stopDev (hc x hm hp) rfl rfl
    exact hstop.setDelete hm rfl rfl rfl rfl Iff.rfl
  | removed id => exact hi.stopDev hc rfl rfl
  | handshake m k j x σ hm hk hw hj =>
    have hσ := List.mem_of_getElem? hk
    have hx := List.mem_of_getElem? hm
    have hn := List.mem_of_getElem? hj
    have hl : σ.leaving = true := leaving_iff.mpr ⟨(hst σ hσ).notify hn, .inl ⟨_, hn, rfl⟩⟩
    have hdev := hi.leaving σ hσ hl x hx hw
    have hset : Separated (s.setSession k { σ with threads := σ.threads.set j .exited }) := by
      refine hi.set rfl hk rfl ?_
      intro hl'
      exact ⟨hl, rfl⟩
    refine ⟨?_, ?_⟩
    · intro τ hτ hl'
      apply List.forall_mem_set (hset.leaving τ hτ hl')
      intro h
      cases h
    · apply List.forall_mem_set hi.own
      intro _
      rw [hdev]

theorem separated_reach (h : (machine queues).Reach Separate s) : Separated s := by
  refine h.invariant ?_ fun t a t' hr hi hc hs =>
    separated_step hi (ident_reach hr) (stopped_reach hr) hc (step_cases hs)
  rintro t ⟨devices, ids, rfl⟩
  exact ⟨by simp [boot], by simp [boot]⟩

/-- The steps of the sessions, of their queue threads and of the calls of `Delete`. -/
def Act.internal : Act → Bool
  | .caller .. | .startup .. | .thread .. | .devDel .. | .handshake .. | .remove .. => true
  | _ => false

/-- Deadlock: nothing goes on until there is a new call or a new event outside. -/
def Quiet (queues : ℕ → ℤ) (s : State) : Prop := ∀ a, a.internal = true → step s queues a = none

theorem quiet_handshake (hq : Quiet queues s) {x : Deletion} (hx : x ∈ s.deletes)
    (hw : x.caller = .waiting) (hσ : σ ∈ s.sessions) : .notify ∉ σ.threads := by
  intro hn
  obtain ⟨m, hm⟩ := List.mem_iff_getElem?.mp hx
  obtain ⟨k, hk⟩ := List.mem_iff_getElem?.mp hσ
  obtain ⟨j, hj⟩ := List.mem_iff_getElem?.mp hn
  have := hq (.handshake m k j) rfl
  simp [step, hm, hk, hw, hj] at this

theorem count_notify_eq_zero : s.count (· == .notify) = 0 ↔ ∀ σ ∈ s.sessions, .notify ∉ σ.threads := by
  rw [State.count, List.sum_eq_zero_iff_forall_eq_nat, List.forall_mem_map]
  refine forall₂_congr fun σ _ => ?_
  rw [Session.count, List.countP_eq_zero]
  constructor
  · intro h hn
    exact h _ hn rfl
  · intro hn p hp he
    exact hn (eq_of_beq he ▸ hp)

theorem quiet_blocked (hr : s.count (· == .exited) = s.returned) (hq : Quiet queues s) :
    s.count (· == .notify) = 0 ↔ s.count ThreadPc.left ≤ s.deletes.length := by
  have hleft := count_left s
  have hlen := List.length_eq_countP_add_countP (fun x : Deletion => x.caller != .waiting) (l := s.deletes)
  constructor
  · intro h0
    simp only [State.returned] at hr
    omega
  · intro hle
    by_contra hpos
    have hnone : s.deletes.countP (fun x => decide ¬(x.caller != .waiting) = true) = 0 := by
      rw [List.countP_eq_zero]
      intro x hx hw
      have hw' : x.caller = .waiting := by simpa using hw
      exact hpos (count_notify_eq_zero.mpr fun σ hσ => quiet_handshake hq hx hw' hσ)
    simp only [State.returned] at hr
    omega

theorem Local.dev (h : Local queues ids σ σ') : σ'.dev = σ.dev := by
  cases h <;> rfl

def State.starts (s : State) : List ℕ := s.sessions.map Session.dev

theorem started_set {u : State} (hs : u.sessions = s.sessions.set k σ') (hk : s.sessions[k]? = some σ)
    (h : σ'.dev = σ.dev) : u.starts = s.starts := by
  obtain ⟨hlt, rfl⟩ := List.getElem?_eq_some_iff.mp hk
  rw [State.starts, hs, List.map_set, h, ← List.getElem_map Session.dev (h := by simpa using hlt)]
  exact List.set_getElem_self _

theorem started_stop (id : ℤ) : (s.stopDev id).starts = s.starts := by
  rw [State.starts, State.stopDev, List.map_map, State.starts]
  exact List.map_congr_left fun σ _ => (σ.stop_serves id).2.2

theorem started_step (h : Step queues s a s') :
    s'.starts = s.starts ∨ ∃ d, a = .start d ∧ s'.starts = s.starts ++ [d] := by
  cases h with
  | start d => exact .inr ⟨d, rfl, by simp [State.starts, Session.new]⟩
  | fill k ok σ i hk => exact .inl (started_set rfl hk rfl)
  | locally _ k σ σ' hk hl => exact .inl (started_set rfl hk hl.dev)
  | addDevOk k ans σ hk | setId k ans σ hk | register k ans σ hk | unregister k ans σ hk
  | closeDone k ans σ hk => exact .inl (started_set rfl hk rfl)
  | handshake m k j x σ hm hk => exact .inl (started_set rfl hk rfl)
  | stopDev m x => exact .inl (started_stop x.id)
  | removed id => exact .inl (started_stop id)
  | request | takeMsg | putMsg | delete | devDelMove | delDev | remove => exact .inl rfl

theorem once_reach (h : (machine queues).Reach Separate s) : s.starts.Nodup := by
  apply h.invariant (I := fun s => s.starts.Nodup)
  · rintro t ⟨devices, ids, rfl⟩
    exact List.nodup_nil
  · intro t a t' _ hi hc hs
    rcases started_step (step_cases hs) with he | ⟨d, rfl, he⟩
    · rwa [he]
    · rw [he, List.nodup_append]
      refine ⟨hi, List.nodup_cons.mpr ⟨List.not_mem_nil, List.nodup_nil⟩, ?_⟩
      intro x hx y hy
      obtain ⟨σ, hσ, rfl⟩ := List.mem_map.mp hx
      rw [List.mem_singleton.mp hy]
      exact hc σ hσ

theorem closed_reach (h : (machine queues).Reach C s) : ∀ d, (s.devs d).daemonDone = true →
    ∃ (k : ℕ) (σ : Session), s.sessions[k]? = some σ ∧ σ.pc = .ended ∧ σ.dev = d := by
  apply h.invariant (I := fun s => ∀ d, (s.devs d).daemonDone = true →
    ∃ (k : ℕ) (σ : Session), s.sessions[k]? = some σ ∧ σ.pc = .ended ∧ σ.dev = d)
  · rintro t ⟨devices, ids, rfl⟩ d hd
    cases hd
  · intro t a t' hr hi _ hs d hd
    rcases closes_step (step_cases hs) hd with hd | ⟨k, ans, σ, σ', -, -, -, hk, hp, hdev⟩
    · obtain ⟨k, σ, hk, hp, hdev⟩ := hi d hd
      obtain ⟨σ', hk', hp', hdev'⟩ := keeps_step (track_reach hr) (step_cases hs) k σ hk hp
      exact ⟨k, σ', hk', hp', hdev'.trans hdev⟩
    · exact ⟨k, σ', hk, hp, hdev⟩

/-- The goroutine of a device that is started once does not panic in `close`. -/
theorem open_reach (h : (machine queues).Reach Separate s) (hσ : σ ∈ s.sessions) (hp : σ.pc = .closeDone) :
    (s.devs σ.dev).daemonDone = false := by
  rw [← Bool.not_eq_true]
  intro hd
  obtain ⟨j, τ, hj, hpτ, hdev⟩ := closed_reach h σ.dev hd
  obtain ⟨k, hk⟩ := List.mem_iff_getElem?.mp hσ
  have hstarts : s.starts[j]? = s.starts[k]? := by
    rw [State.starts, List.getElem?_map, List.getElem?_map, hj, hk, Option.map_some, Option.map_some, hdev]
  have hlt : j < s.starts.length := by
    rw [State.starts, List.length_map]
    exact (List.getElem?_eq_some_iff.mp hj).1
  have hjk := (List.getElem?_inj hlt (once_reach h)).mp hstarts
  rw [hjk, hk] at hj
  cases hj
  rw [hp] at hpτ
  cases hpτ

theorem quiet_ended (h : (machine queues).Reach Separate s) (hq : Quiet queues s) (hσ : σ ∈ s.sessions)
    (hs : σ.stopped = true) (hn : .notify ∉ σ.threads) :
    σ.pc ≠ .join ∧ σ.pc ≠ .unregister ∧ σ.pc ≠ .closeDone := by
  obtain ⟨k, hk⟩ := List.mem_iff_getElem?.mp hσ
  have hstart : startupStep s queues k σ ⟨true, 0, 0⟩ = none := by
    have := hq (.startup k ⟨true, 0, 0⟩) rfl
    simpa [step, hk] using this
  refine ⟨?_, ?_, ?_⟩
  · intro hp
    have hall : σ.threads.all ThreadPc.done = true := by
      rw [List.all_eq_true]
      intro p hpm
      obtain ⟨j, hj⟩ := List.mem_iff_getElem?.mp hpm
      have hthread := hq (.thread k j true) rfl
      simp only [step, hk, Option.bind_some, threadStep, hj] at hthread
      cases p with
      | exited | failed => rfl
      | init => cases hthread
      | running => simp [hs] at hthread
      | notify => exact absurd hpm hn
    simp [startupStep, hp, hall] at hstart
  · intro hp
    simp [startupStep, hp] at hstart
  · intro hp
    simp [startupStep, hp, open_reach h hσ hp] at hstart

structure Handshake (queues : ℕ → ℤ) (s : State) : Prop where
  own : ∀ x ∈ s.deletes, ∀ err, x.caller = .returned err → x.got = some x.dev
  free : Quiet queues s → ∀ σ ∈ s.sessions, σ.stopped = true → .notify ∉ σ.threads ∧ σ.pc ≠ .join ∧
    σ.pc ≠ .unregister ∧ σ.pc ≠ .closeDone

theorem handshake (queues : ℕ → ℤ) : ∀ s, (machine queues).Reach Separate s →
    (Handshake queues s ↔ (Quiet queues s → s.count ThreadPc.left ≤ s.deletes.length)) := by
  intro s h
  constructor
  · intro hh hq
    refine (quiet_blocked (received_reach h) hq).mp (count_notify_eq_zero.mpr ?_)
    intro σ hσ hn
    exact (hh.free hq σ hσ ((stopped_reach h σ hσ).notify hn)).1 hn
  · intro hcount
    refine ⟨?_, ?_⟩
    · intro x hx err hr
      exact (separated_reach h).own x hx (by simp [hr])
    · intro hq σ hσ hs
      have hn := count_notify_eq_zero.mp ((quiet_blocked (received_reach h) hq).mpr (hcount hq)) σ hσ
      exact ⟨hn, quiet_ended h hq hσ hs hn⟩

def deleteOne : List Act :=
  serveOne ++ .delete 0 :: List.replicate 4 (.devDel 0 true) ++ [.thread 0 0 true, .handshake 0 0 0,
    .remove 0 true] ++ List.replicate 3 (.startup 0 yes)

theorem deleteOne_runs : ((machine oneQueue).runIf (fun s a => decide (Separate s a))
    (boot (fun _ => none) fun _ => false) deleteOne).isSome = true := by decide +kernel

def deleted : State := ((machine oneQueue).runIf (fun s a => decide (Separate s a))
  (boot (fun _ => none) fun _ => false) deleteOne).get deleteOne_runs

def deletedSession : Session :=
  { startedSession with
    pc := .ended
    threads := [.exited]
    stopped := true }

theorem deleted_sessions : deleted.sessions = [deletedSession] ∧
    deleted.deletes = [⟨0, 0, .returned false, .ended, some 0⟩] := by decide +kernel

theorem quiet_of_single {x : Deletion} (hs : s.sessions = [σ]) (hd : s.deletes = [x])
    (hcaller : ∀ ok, callerStep s 0 σ ok = none) (hstartup : ∀ ans, startupStep s queues 0 σ ans = none)
    (hthread : ∀ j ok, threadStep σ j ok = none) (hx : x.pc = .ended ∧ ∃ err, x.caller = .returned err) :
    Quiet queues s := by
  obtain ⟨hpc, err, hret⟩ := hx
  intro a ha
  cases a with
  | caller k ok => rcases k with _ | k <;> simp [step, hs, hcaller]
  | startup k ans => rcases k with _ | k <;> simp [step, hs, hstartup]
  | thread k j ok => rcases k with _ | k <;> simp [step, hs, hthread]
  | devDel m ok => rcases m with _ | m <;> simp [step, hd, cmdDevDel, hpc]
  | handshake m k j => rcases m with _ | m <;> simp [step, hd, hret]
  | remove m ok => rcases m with _ | m <;> simp [step, hd, hret]
  | _ => cases ha

theorem deleted_quiet : Quiet oneQueue deleted := by
  obtain ⟨hs, hd⟩ := deleted_sessions
  apply quiet_of_single hs hd
  · simp [callerStep, deletedSession, startedSession]
  · simp [startupStep, deletedSession]
  · rintro (_ | j) ok <;> simp [threadStep, deletedSession]
  · exact ⟨rfl, false, rfl⟩

theorem handshake_deleted : Quiet oneQueue deleted ∧ Handshake oneQueue deleted :=
  ⟨deleted_quiet, (handshake oneQueue deleted (.of_runIf (.init ⟨_, _, rfl⟩) (fun _ _ => of_decide_eq_true)
    (Option.some_get _).symm)).mpr fun _ => by decide +kernel⟩

def twoQueues : ℕ → ℤ := fun _ => 2

/-- Device 0 has two queues, and its only `Delete` takes the first notification. -/
def deleteTwo : List Act :=
  startUp ++ List.replicate 5 (.startup 0 yes) ++ [.thread 0 0 true, .thread 0 1 true, .startup 0 yes,
    .delete 0] ++ List.replicate 4 (.devDel 0 true) ++ [.thread 0 0 true, .thread 0 1 true,
    .handshake 0 0 0, .remove 0 true]

theorem deleteTwo_runs : (runFrom twoQueues deleteTwo).isSome = true := by decide +kernel

def halfDeleted : State := (runFrom twoQueues deleteTwo).get deleteTwo_runs

def halfSession : Session :=
  { startedSession with
    pc := .join
    info := ⟨0, 2⟩
    infoArray := true
    threads := [.exited, .notify]
    stopped := true }

theorem halfDeleted_sessions : halfDeleted.sessions = [halfSession] ∧
    halfDeleted.deletes = [⟨0, 0, .returned false, .ended, some 0⟩] := by decide +kernel

theorem halfDeleted_quiet : Quiet twoQueues halfDeleted := by
  obtain ⟨hs, hd⟩ := halfDeleted_sessions
  apply quiet_of_single hs hd
  · simp [callerStep, halfSession, startedSession]
  · simp [startupStep, halfSession, ThreadPc.done]
  · rintro (_ | _ | j) ok <;> simp [threadStep, halfSession]
  · exact ⟨rfl, false, rfl⟩

theorem not_handshake_halfDeleted :
    ¬ ∀ queues s, (machine queues).Reach Machine.Free s → Handshake queues s := by
  intro h
  have hr : (machine twoQueues).Reach Machine.Free halfDeleted :=
    runFrom_reach (fun _ _ _ => trivial) (Option.some_get deleteTwo_runs).symm
  have hσ : halfSession ∈ halfDeleted.sessions := halfDeleted_sessions.1 ▸ .head _
  exact ((h twoQueues halfDeleted hr).free halfDeleted_quiet halfSession hσ rfl).1 (by decide)

end GoUblksrv.Device
