import GoUblksrv.Device.Inversion
import GoUblksrv.Lib.ListCount

namespace GoUblksrv.Device

variable {queues : ℕ → ℤ} {ids : ℤ → Bool} {s s' : State} {a : Act} {σ σ' : Session}
  {C : State → Act → Prop} {k : ℕ}

def StartupPc.isRegistered : StartupPc → Bool
  | .sendNil | .getAffinity | .infoArray | .devInit | .createThreads | .startDev | .join | .unregister
  | .closeDone | .ended => true
  | _ => false

def StartupPc.isDaemon : StartupPc → Bool
  | .infoArray | .devInit | .createThreads | .startDev | .join | .unregister | .closeDone | .ended => true
  | _ => false

def Session.values (σ : Session) : List Bool :=
  match σ.caller with
  | .returned err => err :: σ.initDone
  | _ => σ.initDone

def Failures.errors (f : Failures) : List Bool :=
  List.replicate (f.addDev.toNat + f.initParams.toNat) true

def Failures.values (f : Failures) : StartupPc → List Bool
  | .unborn | .ctrlInit | .sendInitErr | .addDev | .sendAddErr => []
  | .initParams | .sendParamsErr => List.replicate f.addDev.toNat true
  | .setId | .register | .sendNil => f.errors
  | .ended => if f.ctrlInit then [true] else f.errors ++ [false]
  | _ => f.errors ++ [false]

def Failures.At (f : Failures) : StartupPc → Prop
  | .unborn => f.ctrlInit = false ∧ f.addDev = false ∧ f.initParams = false
  | .ctrlInit | .addDev =>
    f.mkdir = false ∧ f.ctrlInit = false ∧ f.addDev = false ∧ f.initParams = false
  | .sendInitErr => f.mkdir = false ∧ f.ctrlInit = true ∧ f.addDev = false ∧ f.initParams = false
  | .sendAddErr => f.mkdir = false ∧ f.ctrlInit = false ∧ f.addDev = true ∧ f.initParams = false
  | .initParams => f.mkdir = false ∧ f.ctrlInit = false ∧ f.initParams = false
  | .sendParamsErr => f.mkdir = false ∧ f.ctrlInit = false ∧ f.initParams = true
  | .ended => f.mkdir = false ∧ (f.ctrlInit = true → f.addDev = false ∧ f.initParams = false)
  | _ => f.mkdir = false ∧ f.ctrlInit = false

def CallerPc.filled : CallerPc → ℕ
  | .fill i => i
  | _ => nrMessages

structure Session.Track (σ : Session) : Prop where
  fails : σ.fails.At σ.pc
  values : σ.pc ≠ .unborn → σ.values = σ.fails.values σ.pc
  sent : σ.pc ≠ .unborn → σ.sent = σ.values.length
  registered : σ.registered = (σ.pc.isRegistered && !σ.fails.ctrlInit)
  daemon : σ.daemon = (σ.pc.isDaemon && !σ.fails.ctrlInit)
  unborn : σ.pc = .unborn → σ.initDone = [] ∧ σ.sent = 0 ∧
    (σ.caller = .returned true ∧ σ.fails.mkdir = true ∨
      (∀ err, σ.caller ≠ .returned err) ∧ σ.caller ≠ .recv ∧ σ.fails.mkdir = false)
  born : σ.pc ≠ .unborn → σ.caller = .recv ∨ ∃ err, σ.caller = .returned err
  pushed : σ.pushed = σ.caller.filled
  filling : ∀ i, σ.caller = .fill i → i < nrMessages
  room : σ.initDone.length ≤ initDoneCap

theorem values_append (σ : Session) (err : Bool) (n : ℕ) (pc : StartupPc) :
    Session.values { σ with initDone := σ.initDone ++ [err], sent := n, pc := pc } = σ.values ++ [err] := by
  unfold Session.values
  split <;> simp_all

theorem Session.Track.unborn_of (hi : σ.Track) (hr : σ.caller ≠ .recv)
    (he : ∀ err, σ.caller ≠ .returned err) : σ.pc = .unborn := by
  by_contra hpc
  rcases hi.born hpc with h | ⟨err, h⟩
  · exact hr h
  · exact he err h

theorem Session.Track.mkdir_ok (hi : σ.Track) (hpc : σ.pc = .unborn)
    (he : ∀ err, σ.caller ≠ .returned err) : σ.fails.mkdir = false := by
  rcases (hi.unborn hpc).2.2 with ⟨hret, -⟩ | ⟨-, -, hm⟩
  · exact absurd hret (he true)
  · exact hm

theorem Session.Track.move (hi : σ.Track) (hpc : σ.pc ≠ .unborn) (hpc' : σ'.pc ≠ .unborn)
    (hc : σ'.caller = σ.caller) (hq : σ'.initDone = σ.initDone) (hs : σ'.sent = σ.sent)
    (hp : σ'.pushed = σ.pushed) (hf : σ'.fails.At σ'.pc)
    (hv : σ'.fails.values σ'.pc = σ.fails.values σ.pc)
    (hr : σ'.registered = (σ'.pc.isRegistered && !σ'.fails.ctrlInit))
    (hd : σ'.daemon = (σ'.pc.isDaemon && !σ'.fails.ctrlInit)) : σ'.Track := by
  have hval : σ'.values = σ.values := by rw [Session.values, Session.values, hc, hq]
  refine ⟨hf, ?_, ?_, hr, hd, fun h => absurd h hpc', ?_, ?_, ?_, ?_⟩
  · intro _
    rw [hval, hv, hi.values hpc]
  · intro _
    rw [hs, hval, hi.sent hpc]
  · intro _
    rw [hc]
    exact hi.born hpc
  · rw [hp, hc]
    exact hi.pushed
  · rw [hc]
    exact hi.filling
  · rw [hq]
    exact hi.room

theorem isRegistered_of_isDaemon {pc : StartupPc} (h : pc.isDaemon = true) : pc.isRegistered = true := by
  revert h
  cases pc <;> simp [StartupPc.isDaemon, StartupPc.isRegistered]

theorem ne_unborn_of_isDaemon {pc : StartupPc} (h : pc.isDaemon = true) : pc ≠ .unborn := by
  rintro rfl
  cases h

theorem values_of_isDaemon {f : Failures} {pc : StartupPc} (hf : f.ctrlInit = false)
    (h : pc.isDaemon = true) : f.values pc = f.errors ++ [false] := by
  revert h
  cases pc <;> simp [StartupPc.isDaemon, Failures.values, hf]

theorem Session.Track.daemon_move (hi : σ.Track) (hd : σ.pc.isDaemon = true) (he : σ.pc ≠ .ended)
    (hd' : σ'.pc.isDaemon = true) (hc : σ'.caller = σ.caller) (hq : σ'.initDone = σ.initDone)
    (hs : σ'.sent = σ.sent) (hp : σ'.pushed = σ.pushed) (hf : σ'.fails = σ.fails)
    (hr : σ'.registered = σ.registered) (hdm : σ'.daemon = σ.daemon) : σ'.Track := by
  obtain ⟨hmkdir, hctrl⟩ : σ.fails.mkdir = false ∧ σ.fails.ctrlInit = false := by
    have := hi.fails
    revert hd he this
    cases σ.pc <;> simp [StartupPc.isDaemon, Failures.At]
  apply hi.move (ne_unborn_of_isDaemon hd) (ne_unborn_of_isDaemon hd') hc hq hs hp
  · rw [hf]
    revert hd'
    cases σ'.pc <;> simp [StartupPc.isDaemon, Failures.At, hmkdir, hctrl]
  · rw [hf, values_of_isDaemon hctrl hd', values_of_isDaemon hctrl hd]
  · rw [hr, hi.registered, hf, isRegistered_of_isDaemon hd, isRegistered_of_isDaemon hd']
  · rw [hdm, hi.daemon, hf, hd, hd']

theorem Session.Track.sends {err : Bool} {pc : StartupPc} (hi : σ.Track)
    (hroom : σ.initDone.length < initDoneCap) (hpc : σ.pc ≠ .unborn)
    (hpc' : pc ≠ .unborn) (hf : σ.fails.At pc)
    (hv : σ.fails.values pc = σ.fails.values σ.pc ++ [err])
    (hr : (σ.pc.isRegistered && !σ.fails.ctrlInit) = (pc.isRegistered && !σ.fails.ctrlInit))
    (hd : (σ.pc.isDaemon && !σ.fails.ctrlInit) = (pc.isDaemon && !σ.fails.ctrlInit)) :
    Session.Track { σ with initDone := σ.initDone ++ [err], sent := σ.sent + 1, pc := pc } := by
  have hval := values_append σ err (σ.sent + 1) pc
  refine ⟨hf, ?_, ?_, hi.registered.trans hr, hi.daemon.trans hd, fun h => absurd h hpc', ?_, hi.pushed,
    hi.filling, ?_⟩
  · intro _
    rw [hval, hi.values hpc]
    exact hv.symm
  · intro _
    rw [hval, List.length_append, ← hi.sent hpc]
    rfl
  · exact fun _ => hi.born hpc
  · rw [List.length_append]
    exact hroom

theorem Session.Track.local_step (hi : σ.Track) (h : Local queues ids σ σ') : σ'.Track := by
  have hfails := hi.fails
  cases h with
  | mkdirOk hc =>
    have hpc := hi.unborn_of (by simp [hc]) (by simp [hc])
    rw [hpc] at hfails
    obtain ⟨hq, hs, -⟩ := hi.unborn hpc
    have hreg := hi.registered
    have hdm := hi.daemon
    rw [hpc] at hreg hdm
    have hmk := hi.mkdir_ok hpc (by simp [hc])
    have hp := hi.pushed
    rw [hc] at hp
    exact ⟨⟨hmk, hfails⟩, fun _ => hq, fun _ => by rw [hs, Session.values, hq]; rfl, hreg, hdm, nofun,
      fun _ => .inl rfl, hp, nofun, hi.room⟩
  | mkdirErr hc =>
    have hpc := hi.unborn_of (by simp [hc]) (by simp [hc])
    rw [hpc] at hfails
    obtain ⟨hq, hs, -⟩ := hi.unborn hpc
    have hp := hi.pushed
    rw [hc] at hp
    refine ⟨?_, fun h => absurd hpc h, fun h => absurd hpc h, hi.registered, hi.daemon, ?_,
      fun h => absurd hpc h, hp, nofun, hi.room⟩
    · change Failures.At _ σ.pc
      rw [hpc]
      exact hfails
    · exact fun _ => ⟨hq, hs, .inl ⟨rfl, rfl⟩⟩
  | recv err rest hc hq =>
    have hpc : σ.pc ≠ .unborn := by
      intro hpc
      rcases (hi.unborn hpc).2.2 with ⟨he, -⟩ | ⟨-, hr, -⟩
      · rw [hc] at he
        cases he
      · exact hr hc
    have hval : Session.values { σ with caller := .returned err, initDone := rest } = σ.values := by
      simp [Session.values, hc, hq]
    have hp := hi.pushed
    rw [hc] at hp
    refine ⟨hfails, ?_, ?_, hi.registered, hi.daemon, fun h => absurd h hpc, fun _ => .inr ⟨err, rfl⟩, hp,
      nofun, ?_⟩
    · intro _
      rw [hval]
      exact hi.values hpc
    · intro _
      rw [hval]
      exact hi.sent hpc
    · have hroom := hi.room
      rw [hq, List.length_cons] at hroom
      exact Nat.le_of_succ_le hroom
  | ctrlInitOk hp =>
    rw [hp] at hfails
    exact hi.move (by simp [hp]) (by simp) rfl rfl rfl rfl hfails (by simp [hp, Failures.values])
      (by simp [hi.registered, hp, StartupPc.isRegistered]) (by simp [hi.daemon, hp, StartupPc.isDaemon])
  | ctrlInitErr hp | addDevErr hp =>
    rw [hp] at hfails
    exact hi.move (by simp [hp]) (by simp) rfl rfl rfl rfl (by simp_all [Failures.At])
      (by simp [hp, Failures.values])
      (by simp [hi.registered, hp, StartupPc.isRegistered]) (by simp [hi.daemon, hp, StartupPc.isDaemon])
  | initParamsOk hp | initParamsErr hp =>
    rw [hp] at hfails
    exact hi.move (by simp [hp]) (by simp) rfl rfl rfl rfl (by simp_all [Failures.At])
      (by simp_all [Failures.values, Failures.errors, Failures.At])
      (by simp [hi.registered, hp, StartupPc.isRegistered]) (by simp [hi.daemon, hp, StartupPc.isDaemon])
  | send err pc hpc hroom =>
    rcases hpc with ⟨hp, rfl, rfl⟩ | ⟨hp, rfl, rfl⟩ | ⟨hp, rfl, rfl⟩ | ⟨hp, rfl, rfl⟩ <;>
      rw [hp] at hfails <;>
      refine hi.sends hroom (by simp [hp]) (by simp) ?_ ?_ ?_ ?_ <;>
      simp_all [Failures.At, Failures.values, Failures.errors, StartupPc.isRegistered, StartupPc.isDaemon,
        List.replicate_succ']
  | getAffinity ok hp =>
    rw [hp] at hfails
    refine hi.move (by simp [hp]) ?_ rfl rfl rfl rfl ?_ ?_ ?_ ?_ <;> cases ok <;>
      simp_all [Failures.At, Failures.values, StartupPc.isRegistered, StartupPc.isDaemon, hi.registered]
  | infoArray ok hp =>
    refine hi.daemon_move (by simp [hp, StartupPc.isDaemon]) (by simp [hp]) ?_ rfl rfl rfl rfl rfl rfl rfl
    cases ok <;> rfl
  | devInitOk hp | devInitErr hp | threadsCreated hp | startDevOk hp | startDevErr hp | join hp =>
    exact hi.daemon_move (by simp [hp, StartupPc.isDaemon]) (by simp [hp]) rfl rfl rfl rfl rfl rfl rfl rfl
  | createThread hp =>
    exact hi.daemon_move (by simp [hp, StartupPc.isDaemon]) (by simp [hp])
      (by simp [hp, StartupPc.isDaemon]) rfl rfl rfl rfl rfl rfl rfl
  | threadInit | threadStop =>
    exact ⟨hi.fails, hi.values, hi.sent, hi.registered, hi.daemon, hi.unborn, hi.born, hi.pushed,
      hi.filling, hi.room⟩

theorem track_new (d : ℕ) : (Session.new d).Track := by
  refine ⟨⟨rfl, rfl, rfl⟩, nofun, nofun, rfl, rfl, ?_, nofun, rfl, ?_, Nat.zero_le _⟩
  · exact fun _ => ⟨rfl, rfl, .inr ⟨nofun, nofun, rfl⟩⟩
  · intro i hi
    cases hi
    decide

theorem Session.Track.stop (hi : σ.Track) (id : ℤ) : (σ.stop id).Track := by
  unfold Session.stop
  split_ifs
  · exact ⟨hi.fails, hi.values, hi.sent, hi.registered, hi.daemon, hi.unborn, hi.born, hi.pushed,
      hi.filling, hi.room⟩
  · exact hi

theorem track_step (hi : ∀ σ ∈ s.sessions, σ.Track) (h : Step queues s a s') :
    ∀ σ ∈ s'.sessions, σ.Track := by
  have hget : ∀ {k : ℕ} {σ : Session}, s.sessions[k]? = some σ → σ.Track := fun hk => hi _ (List.mem_of_getElem? hk)
  cases h with
  | start d =>
    intro σ hσ
    rcases List.mem_append.mp hσ with hσ | hσ
    · exact hi σ hσ
    · rw [List.mem_singleton.mp hσ]
      exact track_new d
  | fill k ok σ i hk hc hroom =>
    have ht := hget hk
    have hpc := ht.unborn_of (by simp [hc]) (by simp [hc])
    have hlt := ht.filling i hc
    obtain ⟨hq, hs, -⟩ := ht.unborn hpc
    have hmk := ht.mkdir_ok hpc (by simp [hc])
    have hp := ht.pushed
    rw [hc] at hp
    refine List.forall_mem_set hi ⟨ht.fails, fun h => absurd hpc h, fun h => absurd hpc h, ht.registered,
      ht.daemon, ?_, fun h => absurd hpc h, ?_, ?_, ht.room⟩
    · refine fun _ => ⟨hq, hs, .inr ⟨?_, ?_, hmk⟩⟩
      · intro err
        change (if i + 1 < nrMessages then CallerPc.fill (i + 1) else .mkdir) ≠ _
        split_ifs <;> simp
      · change (if i + 1 < nrMessages then CallerPc.fill (i + 1) else .mkdir) ≠ _
        split_ifs <;> simp
    · change σ.pushed + 1 = CallerPc.filled (if i + 1 < nrMessages then .fill (i + 1) else .mkdir)
      rw [hp]
      split_ifs with hn
      · rfl
      · change i + 1 = nrMessages
        omega
    · intro j hj
      change (if i + 1 < nrMessages then CallerPc.fill (i + 1) else .mkdir) = _ at hj
      split_ifs at hj with hn
      cases hj
      exact hn
  | locally _ k σ σ' hk hl => exact List.forall_mem_set hi ((hget hk).local_step hl)
  | addDevOk k ans σ hk hp =>
    have ht := hget hk
    have hfails := ht.fails
    rw [hp] at hfails
    refine List.forall_mem_set hi (ht.move (by simp [hp]) (by simp) rfl rfl rfl rfl ?_ ?_ ?_ ?_) <;>
      simp_all [Failures.At, Failures.values, StartupPc.isRegistered, StartupPc.isDaemon, ht.registered,
        ht.daemon]
  | setId k ans σ hk hp | register k ans σ hk hp =>
    have ht := hget hk
    have hfails := ht.fails
    rw [hp] at hfails
    refine List.forall_mem_set hi (ht.move (by simp [hp]) (by simp) rfl rfl rfl rfl ?_ ?_ ?_ ?_) <;>
      simp_all [Failures.At, Failures.values, StartupPc.isRegistered, StartupPc.isDaemon, ht.registered,
        ht.daemon]
  | unregister k ans σ hk hp | closeDone k ans σ hk hp =>
    exact List.forall_mem_set hi ((hget hk).daemon_move (by simp [hp, StartupPc.isDaemon]) (by simp [hp])
      rfl rfl rfl rfl rfl rfl rfl rfl)
  | handshake m k j x σ hm hk =>
    have ht := hget hk
    exact List.forall_mem_set hi
      ⟨ht.fails, ht.values, ht.sent, ht.registered, ht.daemon, ht.unborn, ht.born, ht.pushed,
        ht.filling, ht.room⟩
  | stopDev | removed =>
    intro σ hσ
    obtain ⟨τ, hτ, rfl⟩ := List.mem_map.mp hσ
    exact (hi τ hτ).stop _
  | _ => exact hi

theorem track_reach (h : (machine queues).Reach C s) : ∀ σ ∈ s.sessions, σ.Track := by
  refine h.invariant (I := fun s => ∀ σ ∈ s.sessions, σ.Track) ?_ fun t a t' _ hi _ hs =>
    track_step hi (step_cases hs)
  rintro t ⟨devices, ids, rfl⟩
  simp [boot]

def StartupPc.sends : StartupPc → Bool
  | .sendInitErr | .sendAddErr | .sendParamsErr | .sendNil => true
  | _ => false

/-- The call has returned, and its goroutine is in the daemon or past it or waits for ever. -/
structure Session.Settled (σ : Session) : Prop where
  returned : ∃ err, σ.caller = .returned err
  stays : σ.pc = .unborn ∨ σ.pc.isDaemon = true ∨ σ.pc.sends = true ∧ σ.initDone.length = initDoneCap

def Failures.any (f : Failures) : Bool := f.mkdir || f.ctrlInit || f.addDev || f.initParams

/-- What a call of `Start` that returns an error should leave. -/
structure Unchanged (σ : Session) : Prop where
  registry : σ.registered = false
  daemon : σ.daemon = false
  ended : σ.pc = .unborn ∨ σ.pc = .ended ∧ σ.sent = 1
  pool : σ.pushed = 0

structure Effects (σ : Session) : Prop where
  returned : σ.caller = .returned σ.fails.any
  registered : σ.registered = (!σ.fails.mkdir && !σ.fails.ctrlInit)
  daemon : σ.daemon =
    (!σ.fails.mkdir && !σ.fails.ctrlInit && !(σ.fails.addDev && σ.fails.initParams))
  blocked : σ.pc.sends = (σ.fails.addDev && σ.fails.initParams)
  pushed : σ.pushed = nrMessages

theorem Session.Track.errors_of_nil (hi : σ.Track) {err : Bool} (hc : σ.caller = .returned err)
    (hv : σ.values = σ.fails.errors ++ [false]) :
    err = (σ.fails.addDev || σ.fails.initParams) ∧ (σ.fails.addDev && σ.fails.initParams) = false := by
  have hroom := hi.room
  rw [Session.values, hc] at hv
  unfold Failures.errors at hv
  cases ha : σ.fails.addDev <;> cases hp : σ.fails.initParams <;> rw [ha, hp] at hv <;>
    simp [List.replicate] at hv <;> simp [hv, initDoneCap] at hroom ⊢

theorem Session.Track.effects_unborn (hi : σ.Track) {err : Bool} (hc : σ.caller = .returned err)
    (hpc : σ.pc = .unborn) : Effects σ := by
  have hfails := hi.fails
  have hreg := hi.registered
  have hdm := hi.daemon
  have hpush := hi.pushed
  rw [hc] at hpush
  have hmk : σ.caller = .returned true ∧ σ.fails.mkdir = true := by
    rcases (hi.unborn hpc).2.2 with hu | ⟨hne, -⟩
    · exact hu
    · exact absurd hc (hne err)
  rw [hpc] at hfails hreg hdm
  obtain ⟨-, ha, -⟩ := hfails
  refine ⟨?_, ?_, ?_, ?_, hpush⟩
  · simp [hmk, Failures.any]
  · simp [hreg, hmk.2, StartupPc.isRegistered]
  · simp [hdm, hmk.2, StartupPc.isDaemon]
  · simp [hpc, StartupPc.sends, ha]

theorem Session.Track.effects_daemon (hi : σ.Track) {err : Bool} (hc : σ.caller = .returned err)
    (hd : σ.pc.isDaemon = true) : Effects σ := by
  have hfails := hi.fails
  have hreg := hi.registered
  have hdm := hi.daemon
  have hpush := hi.pushed
  have hv := hi.values (ne_unborn_of_isDaemon hd)
  rw [hc] at hpush
  have hsend : σ.pc.sends = false := by
    revert hd
    cases σ.pc <;> simp [StartupPc.isDaemon, StartupPc.sends]
  rw [isRegistered_of_isDaemon hd, Bool.true_and] at hreg
  rw [hd, Bool.true_and] at hdm
  cases hci : σ.fails.ctrlInit
  · have hmk : σ.fails.mkdir = false := by
      revert hd hfails
      cases σ.pc <;> simp +contextual [StartupPc.isDaemon, Failures.At]
    obtain ⟨rfl, hboth⟩ := hi.errors_of_nil hc (hv.trans (values_of_isDaemon hci hd))
    refine ⟨?_, ?_, ?_, ?_, hpush⟩
    · simp [hc, Failures.any, hmk, hci]
    · simp [hreg, hmk, hci]
    · simp [hdm, hmk, hci, hboth]
    · rw [hsend, hboth]
  · have hend : σ.pc = .ended ∧ σ.fails.addDev = false ∧ σ.fails.initParams = false := by
      revert hd hfails
      cases σ.pc <;> simp +contextual [StartupPc.isDaemon, Failures.At, hci]
    obtain ⟨hend, ha, -⟩ := hend
    have herr : err = true := by
      rw [hend, Session.values, hc] at hv
      simp only [Failures.values, hci, if_true, List.cons.injEq] at hv
      exact hv.1
    refine ⟨?_, ?_, ?_, ?_, hpush⟩
    · simp [hc, herr, Failures.any, hci]
    · simp [hreg, hci]
    · simp [hdm, hci]
    · simp [hsend, ha]

/-- The goroutine that can send no more is at `sendNil`, behind two errors. -/
theorem Session.Track.effects_full (hi : σ.Track) {err : Bool} (hc : σ.caller = .returned err)
    (hsend : σ.pc.sends = true) (hfull : σ.initDone.length = initDoneCap) : Effects σ := by
  have hfails := hi.fails
  have hreg := hi.registered
  have hdm := hi.daemon
  have hpush := hi.pushed
  rw [hc] at hpush
  have hborn : σ.pc ≠ .unborn := by
    intro hpc
    rw [hpc] at hsend
    cases hsend
  have hval := hi.values hborn
  have hv := congrArg List.length hval
  rw [Session.values, hc, List.length_cons, hfull] at hv
  have hpc : σ.pc = .sendNil := by
    revert hsend hv
    cases σ.pc <;> simp [StartupPc.sends, Failures.values, initDoneCap]
    cases σ.fails.addDev <;> simp
  rw [hpc] at hv hval hfails hreg hdm
  have hboth : σ.fails.addDev = true ∧ σ.fails.initParams = true := by
    simp only [Failures.values, Failures.errors, List.length_replicate, initDoneCap] at hv
    revert hv
    cases σ.fails.addDev <;> cases σ.fails.initParams <;> simp
  obtain ⟨hmk, hci⟩ := hfails
  have herr : err = true := by
    rw [Session.values, hc] at hval
    simp only [Failures.values, Failures.errors, hboth, Bool.toNat_true, List.replicate,
      List.cons.injEq] at hval
    exact hval.1
  refine ⟨?_, ?_, ?_, ?_, hpush⟩
  · simp [hc, herr, Failures.any, hboth]
  · simp [hreg, hmk, hci, StartupPc.isRegistered]
  · simp [hdm, hboth, StartupPc.isDaemon]
  · simp [hpc, hboth, StartupPc.sends]

theorem Session.Track.effects (hi : σ.Track) (hs : σ.Settled) : Effects σ := by
  obtain ⟨⟨err, hc⟩, hstay⟩ := hs
  rcases hstay with hpc | hd | ⟨hsend, hfull⟩
  · exact hi.effects_unborn hc hpc
  · exact hi.effects_daemon hc hd
  · exact hi.effects_full hc hsend hfull

def FailedStart (σ : Session) : Prop := σ.caller = .returned true → Unchanged σ

theorem failed_start (h : (machine queues).Reach Machine.Free s) (hσ : σ ∈ s.sessions) (hs : σ.Settled) :
    (FailedStart σ ↔ σ.fails.any = false) ∧ Effects σ := by
  have he := (track_reach h σ hσ).effects hs
  refine ⟨?_, he⟩
  constructor
  · intro hf
    by_contra hany
    rw [Bool.not_eq_false] at hany
    have hret := he.returned
    rw [hany] at hret
    have hpool := (hf hret).pool
    rw [he.pushed] at hpool
    cases hpool
  · intro hany hret
    rw [he.returned, hany] at hret
    cases hret

def yes : Answer := ⟨true, 0, 64⟩

def no : Answer := ⟨false, 0, 0⟩

def oneQueue : ℕ → ℤ := fun _ => 1

def fillAndMkdir (k : ℕ) : List Act := List.replicate (nrMessages + 1) (.caller k true)

def startUp : List Act :=
  .start 0 :: fillAndMkdir 0 ++ List.replicate 6 (.startup 0 yes) ++ [.caller 0 true, .startup 0 yes]

theorem startUp_runs : (runFrom oneQueue startUp).isSome = true := by decide +kernel

def started : State := (runFrom oneQueue startUp).get startUp_runs

def startedSession : Session :=
  { Session.new 0 with
    caller := .returned false
    pc := .infoArray
    info := ⟨0, 1⟩
    pushed := 512
    sent := 1
    registered := true
    daemon := true }

theorem started_sessions : started.sessions = [startedSession] := by decide +kernel

theorem started_reach : (machine oneQueue).Reach Machine.Free started :=
  runFrom_reach (fun _ _ _ => trivial) (Option.some_get startUp_runs).symm

theorem failed_start_started :
    (FailedStart startedSession ↔ startedSession.fails.any = false) ∧ Effects startedSession :=
  failed_start started_reach (started_sessions ▸ .head _) ⟨⟨false, rfl⟩, .inr (.inl rfl)⟩

/-- `ADD_DEV` fails, and the goroutine goes on to the registry and to the daemon. -/
def addDevFails : List Act :=
  .start 0 :: fillAndMkdir 0 ++ [.startup 0 yes, .startup 0 no] ++ List.replicate 4 (.startup 0 yes) ++
    [.caller 0 true, .startup 0 yes, .startup 0 yes]

theorem addDevFails_runs : (runFrom oneQueue addDevFails).isSome = true := by decide +kernel

theorem failed_start_addDevFails :
    ¬ ∀ queues s, (machine queues).Reach Machine.Free s → ∀ σ ∈ s.sessions, σ.Settled → FailedStart σ := by
  intro h
  let σ : Session :=
    { startedSession with
      caller := .returned true
      initDone := [false]
      sent := 2
      fails := ⟨false, false, true, false⟩ }
  have hs : ((runFrom oneQueue addDevFails).get addDevFails_runs).sessions = [σ] := by decide +kernel
  have hf := h oneQueue _ (runFrom_reach (fun _ _ _ => trivial) (Option.some_get addDevFails_runs).symm) σ
    (by rw [hs]; exact .head _) ⟨⟨true, rfl⟩, .inr (.inl rfl)⟩
  exact absurd (hf rfl).registry (by decide)

end GoUblksrv.Device
