import GoUblksrv.Device.Startup

/-!
Which device `onRequestAsync` finds in the registry. `startupC` asks the driver for id 0
and goes on after a failed `ADD_DEV`, so all sessions write the same entry; it is the
right one while no two of them overlap there.
-/

namespace GoUblksrv.Device

variable {queues : ℕ → ℤ} {ids : ℤ → Bool} {s s' : State} {a : Act} {σ σ' : Session}
  {C : State → Act → Prop} {k : ℕ}

def ThreadPc.serves : ThreadPc → Bool
  | .init | .running => true
  | .notify | .exited | .failed => false

/-- The registered daemon of the session has a queue thread in its loop, or may still get one. -/
def Session.serves (σ : Session) : Bool :=
  σ.threads.any ThreadPc.serves ||
    match σ.pc with
    -- with two errors before it, this send never returns
    | .sendNil => !(σ.fails.addDev && σ.fails.initParams)
    | .getAffinity | .infoArray | .devInit | .createThreads => true
    | _ => false

/-- A session that writes the entry of an id finds no session there whose entry it would change. -/
def Apart (s : State) : Act → Prop
  | .startup k _ =>
    ∀ σ ∈ s.sessions[k]?, ∀ τ ∈ s.sessions, τ.serves = true → τ.info.devId = (s.devs σ.dev).id →
      (σ.pc = .register → τ.dev = σ.dev) ∧ σ.pc ≠ .unregister
  | _ => True

instance : Decidable (Apart s a) :=
  match a with
  | .startup k _ => inferInstanceAs (Decidable (∀ σ ∈ s.sessions[k]?, _))
  | .start _ | .caller .. | .thread .. | .request .. | .takeMsg _ | .putMsg _ | .delete _ | .devDel ..
  | .handshake .. | .remove .. | .removed _ => .isTrue trivial

def StartupPc.hasThreads : StartupPc → Bool
  | .createThreads | .startDev | .join | .unregister | .closeDone | .ended => true
  | _ => false

def StartupPc.hasInfo : StartupPc → Bool
  | .unborn | .ctrlInit | .sendInitErr | .ended => false
  | _ => true

structure Ident (devs : ℕ → Dev) (σ : Session) : Prop where
  threads : σ.pc.hasThreads = false → σ.threads = []
  info : σ.pc.hasInfo = true → σ.info.devId = 0
  id : σ.pc = .register → (devs σ.dev).id = 0

theorem adds_zero {got : ℤ} (h : adds ids 0 got = true) : got = 0 := by
  simpa [adds] using (Bool.and_eq_true_iff.mp h).2

theorem Ident.set_thread {devs : ℕ → Dev} {j : ℕ} {p q : ThreadPc} (hi : Ident devs σ)
    (hj : σ.threads[j]? = some p) : Ident devs { σ with threads := σ.threads.set j q } := by
  refine ⟨?_, hi.info, hi.id⟩
  intro h
  rw [hi.threads h] at hj
  cases hj

theorem Ident.local_step {devs : ℕ → Dev} (hi : Ident devs σ) (htr : σ.Track)
    (h : Local queues ids σ σ') : Ident devs σ' := by
  obtain ⟨ht, hinf, hid⟩ := hi
  cases h with
  | mkdirErr | recv => exact ⟨ht, hinf, hid⟩
  | mkdirOk hc =>
    have hp := htr.unborn_of (by simp [hc]) (by simp [hc])
    exact ⟨fun _ => ht (by rw [hp]; rfl), nofun, nofun⟩
  | ctrlInitOk hp => exact ⟨fun _ => ht (by rw [hp]; rfl), fun _ => rfl, nofun⟩
  | ctrlInitErr hp => exact ⟨fun _ => ht (by rw [hp]; rfl), nofun, nofun⟩
  | addDevErr hp | initParamsOk hp | initParamsErr hp =>
    exact ⟨fun _ => ht (by rw [hp]; rfl), fun _ => hinf (by rw [hp]; rfl), nofun⟩
  | send err pc hpc =>
    rcases hpc with ⟨hp, rfl, rfl⟩ | ⟨hp, rfl, rfl⟩ | ⟨hp, rfl, rfl⟩ | ⟨hp, rfl, rfl⟩
    · exact ⟨nofun, nofun, nofun⟩
    all_goals exact ⟨fun _ => ht (by rw [hp]; rfl), fun _ => hinf (by rw [hp]; rfl), nofun⟩
  | getAffinity ok hp =>
    cases ok
    · exact ⟨nofun, nofun, nofun⟩
    · exact ⟨fun _ => ht (by rw [hp]; rfl), fun _ => hinf (by rw [hp]; rfl), nofun⟩
  | infoArray ok hp =>
    cases ok
    · exact ⟨nofun, nofun, nofun⟩
    · exact ⟨fun _ => ht (by rw [hp]; rfl), fun _ => hinf (by rw [hp]; rfl), nofun⟩
  | devInitOk hp | threadsCreated hp | startDevOk hp | join hp =>
    exact ⟨nofun, fun _ => hinf (by rw [hp]; rfl), nofun⟩
  | devInitErr hp | startDevErr hp => exact ⟨nofun, nofun, nofun⟩
  | createThread hp =>
    refine ⟨?_, hinf, hid⟩
    intro h
    rw [hp] at h
    cases h
  | threadInit j ok hj => exact Ident.set_thread ⟨ht, hinf, hid⟩ hj
  | threadStop j hj => exact Ident.set_thread ⟨ht, hinf, hid⟩ hj

theorem Ident.keep {devs devs' : ℕ → Dev} (hi : Ident devs σ) (hd : ∀ d, (devs' d).id = (devs d).id) :
    Ident devs' σ :=
  ⟨hi.threads, hi.info, fun h => (hd _).trans (hi.id h)⟩

theorem setDev_id {d : ℕ} {r : Dev} (h : r.id = (s.devs d).id) (e : ℕ) :
    ((s.setDev d r).devs e).id = (s.devs e).id := by
  by_cases he : e = d
  · subst he
    simpa [State.setDev] using h
  · simp [State.setDev, he]

theorem ident_step (hi : ∀ σ ∈ s.sessions, Ident s.devs σ) (htr : ∀ σ ∈ s.sessions, σ.Track)
    (h : Step queues s a s') : ∀ σ ∈ s'.sessions, Ident s'.devs σ := by
  have hget : ∀ {k : ℕ} {σ : Session}, s.sessions[k]? = some σ → Ident s.devs σ :=
    fun hk => hi _ (List.mem_of_getElem? hk)
  cases h with
  | start d =>
    intro σ hσ
    rcases List.mem_append.mp hσ with hσ | hσ
    · exact hi σ hσ
    · rw [List.mem_singleton.mp hσ]
      exact ⟨fun _ => rfl, nofun, nofun⟩
  | fill k ok σ i hk hc =>
    intro τ hτ
    refine Ident.keep (List.forall_mem_set hi ?_ τ hτ) (setDev_id rfl)
    exact ⟨(hget hk).threads, (hget hk).info, (hget hk).id⟩
  | locally _ k σ σ' hk hl =>
    exact List.forall_mem_set hi ((hget hk).local_step (htr σ (List.mem_of_getElem? hk)) hl)
  | addDevOk k ans σ hk hp ha =>
    have ho := hget hk
    rw [ho.info (by rw [hp]; rfl)] at ha
    exact List.forall_mem_set hi ⟨fun _ => ho.threads (by rw [hp]; rfl), fun _ => adds_zero ha, nofun⟩
  | setId k ans σ hk hp =>
    have ho := hget hk
    have hz := ho.info (by rw [hp]; rfl)
    intro τ hτ
    have hset : ∀ e, (s.devs e).id = 0 ∨ e = σ.dev →
        ((s.setDev σ.dev { s.devs σ.dev with id := σ.info.devId }).devs e).id = 0 := by
      intro e he
      by_cases hd : e = σ.dev
      · simp [State.setDev, hd, hz]
      · simpa [State.setDev, hd] using he.resolve_right hd
    rcases List.mem_or_eq_of_mem_set hτ with hτ | rfl
    · exact ⟨(hi τ hτ).threads, (hi τ hτ).info, fun h => hset _ (.inl ((hi τ hτ).id h))⟩
    · exact ⟨fun _ => ho.threads (by rw [hp]; rfl), fun _ => hz, fun _ => hset _ (.inr rfl)⟩
  | register k ans σ hk hp =>
    have ho := hget hk
    exact List.forall_mem_set hi
      ⟨fun _ => ho.threads (by rw [hp]; rfl), fun _ => ho.info (by rw [hp]; rfl), nofun⟩
  | unregister k ans σ hk hp =>
    exact List.forall_mem_set hi ⟨nofun, fun _ => (hget hk).info (by rw [hp]; rfl), nofun⟩
  | closeDone k ans σ hk hp =>
    intro τ hτ
    refine Ident.keep (List.forall_mem_set hi ?_ τ hτ) (setDev_id rfl)
    exact ⟨nofun, nofun, nofun⟩
  | takeMsg | putMsg => exact fun τ hτ => (hi τ hτ).keep (setDev_id rfl)
  | handshake m k j x σ hm hk hc hj => exact List.forall_mem_set hi ((hget hk).set_thread hj)
  | stopDev | removed =>
    intro σ hσ
    obtain ⟨τ, hτ, rfl⟩ := List.mem_map.mp hσ
    unfold Session.stop
    split_ifs
    · exact ⟨(hi τ hτ).threads, (hi τ hτ).info, (hi τ hτ).id⟩
    · exact hi τ hτ
  | _ => exact hi

theorem ident_reach (h : (machine queues).Reach C s) : ∀ σ ∈ s.sessions, Ident s.devs σ := by
  refine h.invariant (I := fun s => ∀ σ ∈ s.sessions, Ident s.devs σ) ?_ fun t a t' hr hi _ hs =>
    ident_step hi (track_reach hr) (step_cases hs)
  rintro t ⟨devices, ids, rfl⟩
  simp [boot]

theorem serves_of_threads (h : σ.threads.any ThreadPc.serves = true) : σ.serves = true := by
  simp [Session.serves, h]

theorem any_serves_set {j : ℕ} {q : ThreadPc}
    (h : (σ.threads.set j q).any ThreadPc.serves = true) (hq : q.serves = false) :
    σ.threads.any ThreadPc.serves = true := by
  obtain ⟨p, hp, hs⟩ := List.any_eq_true.mp h
  rcases List.mem_or_eq_of_mem_set hp with hp | rfl
  · exact List.any_eq_true.mpr ⟨p, hp, hs⟩
  · rw [hs] at hq
    cases hq

theorem Session.Track.sendNil_full (hi : σ.Track) (hp : σ.pc = .sendNil)
    (hboth : (σ.fails.addDev && σ.fails.initParams) = true) : initDoneCap ≤ σ.initDone.length := by
  have hv := congrArg List.length (hi.values (by simp [hp]))
  rw [Bool.and_eq_true] at hboth
  rcases hi.born (by simp [hp]) with hc | ⟨err, hc⟩ <;>
    simp [hp, hc, Session.values, Failures.values, Failures.errors, hboth, initDoneCap] at hv ⊢ <;> omega

theorem serves_eq (h : match σ.pc with
    | .sendNil | .getAffinity | .infoArray | .devInit | .createThreads => False
    | _ => True) : σ.serves = σ.threads.any ThreadPc.serves := by
  unfold Session.serves
  cases hp : σ.pc <;> simp_all

theorem Local.serves {devs : ℕ → Dev} (h : Local queues ids σ σ') (ht : σ.Track) (hi : Ident devs σ)
    (hs : σ'.serves = true) : σ.serves = true ∧ σ'.info = σ.info ∧ σ'.dev = σ.dev := by
  cases h with
  | mkdirErr | recv => exact ⟨hs, rfl, rfl⟩
  | ctrlInitOk hp =>
    rw [serves_eq trivial, hi.threads (by rw [hp]; rfl)] at hs
    cases hs
  | mkdirOk | ctrlInitErr | addDevErr | initParamsOk | initParamsErr | threadsCreated | startDevOk
  | startDevErr | join | devInitErr =>
    rw [serves_eq trivial] at hs
    exact ⟨serves_of_threads hs, rfl, rfl⟩
  | send err pc hpc hroom =>
    rcases hpc with ⟨hp, rfl, rfl⟩ | ⟨hp, rfl, rfl⟩ | ⟨hp, rfl, rfl⟩ | ⟨hp, rfl, rfl⟩
    · rw [serves_eq trivial] at hs
      exact ⟨serves_of_threads hs, rfl, rfl⟩
    · rw [serves_eq trivial] at hs
      exact ⟨serves_of_threads hs, rfl, rfl⟩
    · rw [serves_eq trivial] at hs
      exact ⟨serves_of_threads hs, rfl, rfl⟩
    · refine ⟨?_, rfl, rfl⟩
      cases hboth : σ.fails.addDev && σ.fails.initParams
      · simp only [Session.serves, hp, hboth]
        simp
      · have := ht.sendNil_full hp hboth
        omega
  | getAffinity ok hp | infoArray ok hp | devInitOk hp | createThread hp =>
    refine ⟨?_, rfl, rfl⟩
    simp [Session.serves, hp]
  | threadInit j ok hj =>
    refine ⟨serves_of_threads ?_, rfl, rfl⟩
    exact List.any_eq_true.mpr ⟨.init, List.mem_of_getElem? hj, rfl⟩
  | threadStop j hj =>
    refine ⟨serves_of_threads ?_, rfl, rfl⟩
    exact List.any_eq_true.mpr ⟨.running, List.mem_of_getElem? hj, rfl⟩

structure Routed (s : State) : Prop where
  entry : ∀ σ ∈ s.sessions, σ.serves = true → s.devices σ.info.devId = some σ.dev
  routed : ∀ r ∈ s.routed, r.entry = some r.dev

theorem Routed.set (hi : Routed s) (hd : s'.devices = s.devices) (hr : s'.routed = s.routed)
    (hk : s.sessions[k]? = some σ) (hs : s'.sessions = s.sessions.set k σ')
    (h : σ'.serves = true → σ.serves = true ∧ σ'.info = σ.info ∧ σ'.dev = σ.dev) : Routed s' := by
  refine ⟨?_, hr ▸ hi.routed⟩
  rw [hd, hs]
  apply List.forall_mem_set hi.entry
  intro hserves
  obtain ⟨hold, hinf, hdev⟩ := h hserves
  rw [hinf, hdev]
  exact hi.entry σ (List.mem_of_getElem? hk) hold

theorem Session.stop_serves (id : ℤ) (σ : Session) :
    (σ.stop id).serves = σ.serves ∧ (σ.stop id).info = σ.info ∧ (σ.stop id).dev = σ.dev := by
  unfold Session.stop
  split_ifs <;> exact ⟨rfl, rfl, rfl⟩

theorem Routed.stopDev (hi : Routed s) (id : ℤ) (hd : s'.devices = s.devices) (hr : s'.routed = s.routed)
    (hs : s'.sessions = s.sessions.map (Session.stop id)) : Routed s' := by
  refine ⟨?_, hr ▸ hi.routed⟩
  rw [hd, hs]
  intro σ hσ hserves
  obtain ⟨τ, hτ, rfl⟩ := List.mem_map.mp hσ
  obtain ⟨h1, h2, h3⟩ := τ.stop_serves id
  rw [h2, h3]
  exact hi.entry τ hτ (h1 ▸ hserves)

theorem routed_step (hi : Routed s) (htr : ∀ σ ∈ s.sessions, σ.Track)
    (hid : ∀ σ ∈ s.sessions, Ident s.devs σ) (hc : Apart s a) (h : Step queues s a s') : Routed s' := by
  have hget : ∀ {k : ℕ} {σ : Session}, s.sessions[k]? = some σ → Ident s.devs σ :=
    fun hk => hid _ (List.mem_of_getElem? hk)
  cases h with
  | start d =>
    refine ⟨?_, hi.routed⟩
    intro σ hσ hs
    rcases List.mem_append.mp hσ with hσ | hσ
    · exact hi.entry σ hσ hs
    · rw [List.mem_singleton.mp hσ] at hs
      cases hs
  | fill k ok σ i hk => exact hi.set rfl rfl hk rfl fun h => ⟨h, rfl, rfl⟩
  | locally _ k σ σ' hk hl =>
    exact hi.set rfl rfl hk rfl fun h => hl.serves (htr σ (List.mem_of_getElem? hk)) (hget hk) h
  | addDevOk k ans σ hk hp =>
    refine hi.set rfl rfl hk rfl ?_
    intro h
    rw [serves_eq trivial, (hget hk).threads (by rw [hp]; rfl)] at h
    cases h
  | setId k ans σ hk hp | closeDone k ans σ hk hp =>
    refine hi.set rfl rfl hk rfl ?_
    intro h
    rw [serves_eq trivial] at h
    exact ⟨serves_of_threads h, rfl, rfl⟩
  | register k ans σ hk hp =>
    refine ⟨?_, hi.routed⟩
    intro τ hτ hs
    have hz := (hget hk).id hp
    rcases List.mem_or_eq_of_mem_set hτ with hτ | rfl
    · by_cases hdev : τ.info.devId = (s.devs σ.dev).id
      · simp [State.setSession, registerDevice, hdev, (hc σ hk τ hτ hs hdev).1 hp]
      · simp [State.setSession, registerDevice, hdev, hi.entry τ hτ hs]
    · have hz' := (hget hk).info (by rw [hp]; rfl)
      simp [State.setSession, registerDevice, hz, hz']
  | unregister k ans σ hk hp =>
    refine ⟨?_, hi.routed⟩
    intro τ hτ hs
    have hne : ∀ υ ∈ s.sessions, υ.serves = true → υ.info.devId ≠ (s.devs σ.dev).id :=
      fun υ hυ hs hdev => (hc σ hk υ hυ hs hdev).2 hp
    rcases List.mem_or_eq_of_mem_set hτ with hτ | rfl
    · simp [State.setSession, unregisterDevice, hne τ hτ hs, hi.entry τ hτ hs]
    · rw [serves_eq trivial] at hs
      have hold : σ.serves = true := serves_of_threads hs
      have hmem := List.mem_of_getElem? hk
      simp [State.setSession, unregisterDevice, hne σ hmem hold, hi.entry σ hmem hold]
  | request k j σ hk hj =>
    refine ⟨hi.entry, ?_⟩
    intro r hr
    rcases List.mem_append.mp hr with hr | hr
    · exact hi.routed r hr
    · rw [List.mem_singleton.mp hr]
      refine hi.entry σ (List.mem_of_getElem? hk) (serves_of_threads ?_)
      exact List.any_eq_true.mpr ⟨.running, List.mem_of_getElem? hj, rfl⟩
  | handshake m k j x σ hm hk hc hj =>
    refine hi.set rfl rfl hk rfl ?_
    intro h
    refine ⟨?_, rfl, rfl⟩
    simp only [Session.serves, Bool.or_eq_true] at h ⊢
    exact h.imp_left fun h => any_serves_set h rfl
  | stopDev | removed => exact hi.stopDev _ rfl rfl rfl
  | _ => exact ⟨hi.entry, hi.routed⟩

theorem routed (queues : ℕ → ℤ) :
    ∀ s, (machine queues).Reach Apart s → ∀ r ∈ s.routed, r.entry = some r.dev := by
  intro s h
  have hr : Routed s := by
    refine h.invariant ?_ fun t a t' hr hi hc hs =>
      routed_step hi (track_reach hr) (ident_reach hr) hc (step_cases hs)
    rintro t ⟨devices, ids, rfl⟩
    exact ⟨by simp [boot], by simp [boot]⟩
  exact hr.routed

def serveOne : List Act :=
  startUp ++ List.replicate 4 (.startup 0 yes) ++ [.thread 0 0 true, .startup 0 yes, .request 0 0]

theorem serveOne_runs : ((machine oneQueue).runIf (fun s a => decide (Apart s a))
    (boot (fun _ => none) fun _ => false) serveOne).isSome = true := by decide +kernel

def served : State := ((machine oneQueue).runIf (fun s a => decide (Apart s a))
  (boot (fun _ => none) fun _ => false) serveOne).get serveOne_runs

theorem routed_serveOne : served.routed ≠ [] ∧ ∀ r ∈ served.routed, r.entry = some r.dev :=
  ⟨by decide +kernel, routed oneQueue _ (.of_runIf (.init ⟨_, _, rfl⟩) (fun _ _ => of_decide_eq_true)
    (Option.some_get _).symm)⟩

/-- `Start` of device 1, whose `ADD_DEV` fails as id 0 exists, registers it in the place of device 0. -/
def overwrite : List Act :=
  serveOne ++ .start 1 :: fillAndMkdir 1 ++ [.startup 1 yes, .startup 1 no, .startup 1 yes, .startup 1 no,
    .caller 1 true] ++ List.replicate 3 (.startup 1 yes) ++ [.request 0 0]

theorem overwrite_runs : (runFrom oneQueue overwrite).isSome = true := by decide +kernel

theorem misrouted_overwrite :
    ¬ ∀ queues s, (machine queues).Reach Machine.Free s → ∀ r ∈ s.routed, r.entry = some r.dev := by
  intro h
  have hr := h oneQueue _ (runFrom_reach (fun _ _ _ => trivial) (Option.some_get overwrite_runs).symm)
  have hs : ((runFrom oneQueue overwrite).get overwrite_runs).routed = [⟨0, some 0⟩, ⟨0, some 1⟩] := by
    decide +kernel
  rw [hs] at hr
  exact absurd (hr ⟨0, some 1⟩ (by simp)) (by decide)

end GoUblksrv.Device
