import GoUblksrv.Lib.Ledger
import GoUblksrv.Lib.Program
import Mathlib.Data.Int.Notation
import Mathlib.Logic.Function.Basic
import Mathlib.Tactic.SplitIfs

/-!
`ublksrv_dev_init` with the two functions that write the pid file, as a program of system
calls. A call of the system is answered by a number, as the C functions return it; the content
of the uninitialised `pid_fd` is an argument.
-/

namespace GoUblksrv.Device

inductive Syscall
  | calloc
  | openFile (path : String) (creat : Bool)
  | ftruncate (fd : ℤ)
  | write (fd : ℤ) (buf : String)
  | close (fd : ℤ)
  | unlink (path : String)
  deriving DecidableEq, Repr

abbrev Sys := Program Syscall ℤ

def syscall (c : Syscall) : Sys ℤ := .ask c .done

structure CtrlDev where
  devId : UInt32
  runDir : Option String
  deriving DecidableEq, Repr

/-- The descriptors of `struct _ublksrv_dev`. -/
structure CharDev where
  cdevFd : ℤ
  pidFileFd : ℤ
  tgtFd : ℤ
  deriving DecidableEq, Repr

def snprintf (size : ℕ) (s : String) : String := .ofList (s.toList.take (size - 1))

def ublkcDev : String := "/dev/ublkc"

def cdevPath (devId : UInt32) : String := snprintf 64 (ublkcDev ++ toString devId.toInt32.toInt)

def pidPath (runDir : String) (devId : UInt32) : String :=
  snprintf 64 (runDir ++ "/" ++ toString devId.toInt32.toInt ++ ".pid")

abbrev pidPathLen : ℕ := 256

def pidText (pid : ℤ) : String := snprintf pidPathLen (toString pid ++ "\n")

/-- The label `fail` of `create_pid_file`, which the good case reaches too. -/
def createPidFileEnd (pidFile : String) (fd ret pidFd : ℤ) : Sys (ℤ × ℤ) :=
  if ret ≠ 0 then do
    let _ ← syscall (.close fd)
    let _ ← syscall (.unlink pidFile)
    pure (ret, pidFd)
  else pure (ret, pidFd)

/-- The result and what `*pid_fd` then holds, which was `pidFd`. -/
def createPidFile (pidFile : String) (pid pidFd : ℤ) : Sys (ℤ × ℤ) := do
  let fd ← syscall (.openFile pidFile true)
  if fd < 0 then pure (fd, pidFd)
  else do
    let ret ← syscall (.ftruncate fd)
    if ret = -1 then createPidFileEnd pidFile fd ret pidFd
    else do
      let n ← syscall (.write fd (pidText pid))
      if n ≠ (pidText pid).utf8ByteSize then createPidFileEnd pidFile fd (-1) pidFd
      else createPidFileEnd pidFile fd ret fd

def ublksrvCreatePidFile (ctrl : CtrlDev) (pid garbage : ℤ) (dev : CharDev) : Sys (ℤ × CharDev) :=
  match ctrl.runDir with
  | none => pure (0, dev)
  | some runDir => do
    let (ret, pidFd) ← createPidFile (pidPath runDir ctrl.devId) pid garbage
    if ret < 0 then
      if ret = -1 then do
        let _ ← syscall (.close pidFd)
        let _ ← syscall (.unlink (pidPath runDir ctrl.devId))
        pure (ret, dev)
      else pure (ret, dev)
    else pure (0, { dev with pidFileFd := pidFd })

/-- The memory of a device comes from `calloc`, so `pid_file_fd` starts as 0. -/
def ublksrvDevInit (ctrl : CtrlDev) (pid garbage : ℤ) : Sys (Option CharDev) := do
  let mem ← syscall .calloc
  if mem = 0 then pure none
  else do
    let fd ← syscall (.openFile (cdevPath ctrl.devId) false)
    if fd < 0 then pure none
    else do
      let (ret, dev) ← ublksrvCreatePidFile ctrl pid garbage ⟨fd, 0, fd⟩
      if ret ≠ 0 then pure none else pure (some dev)

/-- The descriptors that calls open and close. A number that is neither in the table at the
start nor opened on the way is not a descriptor, and closing it closes nothing. -/
def entries (ans : Syscall → ℤ) (table : ℤ → Bool) : List ℤ → List Syscall → List (Entry ℤ)
  | _, [] => []
  | opened, .openFile path creat :: cs =>
    let fd := ans (.openFile path creat)
    if 0 ≤ fd then .acquire fd :: entries ans table (fd :: opened) cs else entries ans table opened cs
  | opened, .close fd :: cs =>
    if table fd || opened.contains fd then .release fd :: entries ans table opened cs
    else entries ans table opened cs
  | opened, _ :: cs => entries ans table opened cs

def openedBy (ans : Syscall → ℤ) : List ℤ → List Syscall → List ℤ
  | opened, [] => opened
  | opened, .openFile path creat :: cs =>
    let fd := ans (.openFile path creat)
    openedBy ans (if 0 ≤ fd then fd :: opened else opened) cs
  | opened, _ :: cs => openedBy ans opened cs

def filesAfter (ans : Syscall → ℤ) (files : String → Bool) : List Syscall → String → Bool
  | [] => files
  | .openFile path true :: cs =>
    filesAfter ans (if 0 ≤ ans (.openFile path true) then Function.update files path true else files) cs
  | .unlink path :: cs => filesAfter ans (Function.update files path false) cs
  | _ :: cs => filesAfter ans files cs

variable {ans : Syscall → ℤ} {table : ℤ → Bool} {ctrl : CtrlDev} {path : String} {fd : ℤ}
  (pid garbage : ℤ)

@[simp] theorem syscall_eval (c : Syscall) : (syscall c).eval ans = ans c := rfl

@[simp] theorem syscall_trace (c : Syscall) : (syscall c).trace ans = [c] := rfl

structure Written (ans : Syscall → ℤ) (pid fd : ℤ) : Prop where
  opened : 0 ≤ fd
  truncated : ans (.ftruncate fd) = 0
  whole : ans (.write fd (pidText pid)) = (pidText pid).utf8ByteSize

theorem createPidFile_unopened (hfd : ans (.openFile path true) = fd) (h : fd < 0) :
    (createPidFile path pid garbage).eval ans = (fd, garbage) ∧
      (createPidFile path pid garbage).trace ans = [.openFile path true] := by
  simp [createPidFile, hfd, h]

theorem createPidFile_untruncated (hfd : ans (.openFile path true) = fd) (h : 0 ≤ fd)
    (ht : ans (.ftruncate fd) = -1) :
    (createPidFile path pid garbage).eval ans = (-1, garbage) ∧
      (createPidFile path pid garbage).trace ans =
        [.openFile path true, .ftruncate fd, .close fd, .unlink path] := by
  simp [createPidFile, createPidFileEnd, hfd, Int.not_lt.mpr h, ht]

theorem createPidFile_unwritten (hfd : ans (.openFile path true) = fd) (h : 0 ≤ fd)
    (ht : ans (.ftruncate fd) = 0) (hw : ans (.write fd (pidText pid)) ≠ (pidText pid).utf8ByteSize) :
    (createPidFile path pid garbage).eval ans = (-1, garbage) ∧
      (createPidFile path pid garbage).trace ans =
        [.openFile path true, .ftruncate fd, .write fd (pidText pid), .close fd, .unlink path] := by
  simp [createPidFile, createPidFileEnd, hfd, Int.not_lt.mpr h, ht, hw]

theorem createPidFile_written (hfd : ans (.openFile path true) = fd) (h : Written ans pid fd) :
    (createPidFile path pid garbage).eval ans = (0, fd) ∧
      (createPidFile path pid garbage).trace ans =
        [.openFile path true, .ftruncate fd, .write fd (pidText pid)] := by
  simp [createPidFile, createPidFileEnd, hfd, Int.not_lt.mpr h.opened, h.truncated, h.whole]

theorem entries_append (opened : List ℤ) (cs cs' : List Syscall) :
    entries ans table opened (cs ++ cs') =
      entries ans table opened cs ++ entries ans table (openedBy ans opened cs) cs' := by
  induction cs generalizing opened with
  | nil => rfl
  | cons c cs ih =>
    cases c with
    | openFile path creat =>
      simp only [List.cons_append, entries, openedBy]
      split_ifs
      · rw [ih, List.cons_append]
      · exact ih _
    | close fd =>
      simp only [List.cons_append, entries, openedBy]
      split_ifs
      · rw [ih, List.cons_append]
      · exact ih _
    | _ => exact ih _

theorem mem_openedBy {opened : List ℤ} {fd : ℤ} (h : fd ∈ opened) (cs : List Syscall) :
    fd ∈ openedBy ans opened cs := by
  induction cs generalizing opened with
  | nil => exact h
  | cons c cs ih =>
    cases c with
    | openFile path creat =>
      simp only [openedBy]
      split_ifs
      · exact ih (List.mem_cons_of_mem _ h)
      · exact ih h
    | _ => exact ih h

theorem filesAfter_append (files : String → Bool) (cs cs' : List Syscall) :
    filesAfter ans files (cs ++ cs') = filesAfter ans (filesAfter ans files cs) cs' := by
  induction cs generalizing files with
  | nil => rfl
  | cons c cs ih =>
    cases c with
    | openFile path creat => cases creat <;> exact ih _
    | _ => exact ih _

/-- However it fails, `create_pid_file` has closed the descriptor that it opened, has removed the
file and has left `*pid_fd` alone. -/
theorem createPidFile_failed (table : ℤ → Bool) (opened : List ℤ) (files : String → Bool)
    (hfd : ans (.openFile path true) = fd) (hneg : fd < 0 → fd = -1)
    (htrunc : ans (.ftruncate fd) = 0 ∨ ans (.ftruncate fd) = -1) (h : ¬ Written ans pid fd) :
    (createPidFile path pid garbage).eval ans = (-1, garbage) ∧
      (entries ans table opened ((createPidFile path pid garbage).trace ans) = [] ∨
        entries ans table opened ((createPidFile path pid garbage).trace ans) =
          [.acquire fd, .release fd]) ∧
      ∀ p, files p = false →
        filesAfter ans files ((createPidFile path pid garbage).trace ans) p = false := by
  rcases Int.lt_or_le fd 0 with hopen | hopen
  · obtain ⟨he, ht⟩ := createPidFile_unopened pid garbage hfd hopen
    rw [he, ht, hneg hopen]
    refine ⟨rfl, .inl ?_, ?_⟩
    · simp [entries, hfd, Int.not_le.mpr hopen]
    · intro p hp
      simp [filesAfter, hfd, Int.not_le.mpr hopen, hp]
  · rcases htrunc with htrunc | htrunc
    · have hw : ans (.write fd (pidText pid)) ≠ (pidText pid).utf8ByteSize := fun hw => h ⟨hopen, htrunc, hw⟩
      obtain ⟨he, ht⟩ := createPidFile_unwritten pid garbage hfd hopen htrunc hw
      rw [he, ht]
      refine ⟨rfl, .inr ?_, ?_⟩
      · simp [entries, hfd, hopen]
      · intro p hp
        simp [filesAfter, hfd, hopen, Function.update_apply, hp]
    · obtain ⟨he, ht⟩ := createPidFile_untruncated pid garbage hfd hopen htrunc
      rw [he, ht]
      refine ⟨rfl, .inr ?_, ?_⟩
      · simp [entries, hfd, hopen]
      · intro p hp
        simp [filesAfter, hfd, hopen, Function.update_apply, hp]

def cdevFd (ans : Syscall → ℤ) (ctrl : CtrlDev) : ℤ := ans (.openFile (cdevPath ctrl.devId) false)

def pidFd (ans : Syscall → ℤ) (ctrl : CtrlDev) (runDir : String) : ℤ :=
  ans (.openFile (pidPath runDir ctrl.devId) true)

variable {runDir : String} {pidFile : ℤ}

theorem ublksrvDevInit_noMemory (ctrl : CtrlDev) (hm : ans .calloc = 0) :
    (ublksrvDevInit ctrl pid garbage).eval ans = none ∧
      (ublksrvDevInit ctrl pid garbage).trace ans = [.calloc] := by
  simp [ublksrvDevInit, hm]

theorem ublksrvDevInit_unopened (hm : ans .calloc ≠ 0) (hfd : cdevFd ans ctrl = fd) (h : fd < 0) :
    (ublksrvDevInit ctrl pid garbage).eval ans = none ∧
      (ublksrvDevInit ctrl pid garbage).trace ans =
        [.calloc, .openFile (cdevPath ctrl.devId) false] := by
  rw [cdevFd] at hfd
  simp [ublksrvDevInit, hm, hfd, h]

theorem ublksrvDevInit_noRunDir (hm : ans .calloc ≠ 0) (hfd : cdevFd ans ctrl = fd) (h : 0 ≤ fd)
    (hr : ctrl.runDir = none) :
    (ublksrvDevInit ctrl pid garbage).eval ans = some ⟨fd, 0, fd⟩ ∧
      (ublksrvDevInit ctrl pid garbage).trace ans =
        [.calloc, .openFile (cdevPath ctrl.devId) false] := by
  rw [cdevFd] at hfd
  simp [ublksrvDevInit, ublksrvCreatePidFile, hm, hfd, Int.not_lt.mpr h, hr]

theorem ublksrvDevInit_failed (hm : ans .calloc ≠ 0) (hfd : cdevFd ans ctrl = fd) (h : 0 ≤ fd)
    (hr : ctrl.runDir = some runDir)
    (hp : (createPidFile (pidPath runDir ctrl.devId) pid garbage).eval ans = (-1, garbage)) :
    (ublksrvDevInit ctrl pid garbage).eval ans = none ∧
      (ublksrvDevInit ctrl pid garbage).trace ans =
        .calloc :: .openFile (cdevPath ctrl.devId) false ::
          ((createPidFile (pidPath runDir ctrl.devId) pid garbage).trace ans ++
            [.close garbage, .unlink (pidPath runDir ctrl.devId)]) := by
  rw [cdevFd] at hfd
  simp [ublksrvDevInit, ublksrvCreatePidFile, hm, hfd, Int.not_lt.mpr h, hr, hp]

theorem ublksrvDevInit_done (hm : ans .calloc ≠ 0) (hfd : cdevFd ans ctrl = fd) (h : 0 ≤ fd)
    (hr : ctrl.runDir = some runDir)
    (hp : (createPidFile (pidPath runDir ctrl.devId) pid garbage).eval ans = (0, pidFile)) :
    (ublksrvDevInit ctrl pid garbage).eval ans = some ⟨fd, pidFile, fd⟩ ∧
      (ublksrvDevInit ctrl pid garbage).trace ans =
        .calloc :: .openFile (cdevPath ctrl.devId) false ::
          (createPidFile (pidPath runDir ctrl.devId) pid garbage).trace ans := by
  rw [cdevFd] at hfd
  simp [ublksrvDevInit, ublksrvCreatePidFile, hm, hfd, Int.not_lt.mpr h, hr, hp]

/-- What the system promises of its answers: an opened descriptor was free before. -/
structure Documented (ans : Syscall → ℤ) (table : ℤ → Bool) (ctrl : CtrlDev) : Prop where
  cdev : cdevFd ans ctrl = -1 ∨ 0 ≤ cdevFd ans ctrl ∧ table (cdevFd ans ctrl) = false
  pidFile : ∀ runDir, ctrl.runDir = some runDir → pidFd ans ctrl runDir = -1 ∨
    0 ≤ pidFd ans ctrl runDir ∧ table (pidFd ans ctrl runDir) = false ∧
      pidFd ans ctrl runDir ≠ cdevFd ans ctrl
  ftruncate : ∀ fd, ans (.ftruncate fd) = 0 ∨ ans (.ftruncate fd) = -1

/-- The discipline of a call that made the system calls `cs` and returned `dev`. -/
structure Disciplined (ans : Syscall → ℤ) (table : ℤ → Bool) (files : String → Bool) (ctrl : CtrlDev)
    (dev : Option CharDev) (cs : List Syscall) : Prop where
  closes : Ledger.strays [] (entries ans table [] cs) = []
  closed : dev = none → Ledger.held [] (entries ans table [] cs) = []
  removed : dev = none → ∀ path, files path = false → filesAfter ans files cs path = false
  cdev : ∀ d, dev = some d → d.cdevFd ∈ Ledger.held [] (entries ans table [] cs)
  pidFile : ∀ d, dev = some d → ctrl.runDir ≠ none →
    d.pidFileFd ∈ Ledger.held [] (entries ans table [] cs) ∧ d.pidFileFd ≠ d.cdevFd

def PidFileWritten (ans : Syscall → ℤ) (ctrl : CtrlDev) (pid : ℤ) : Prop :=
  ∀ runDir, ctrl.runDir = some runDir → Written ans pid (pidFd ans ctrl runDir)

theorem entries_cdev (hfd : cdevFd ans ctrl = fd) (h : 0 ≤ fd) (cs : List Syscall) :
    entries ans table [] (.calloc :: .openFile (cdevPath ctrl.devId) false :: cs) =
      .acquire fd :: entries ans table [fd] cs := by
  rw [cdevFd] at hfd
  simp only [entries, hfd, h, if_true]

theorem entries_cleanup (opened : List ℤ) : entries ans table opened [.close garbage, .unlink path] =
    if table garbage || opened.contains garbage then [.release garbage] else [] := by
  simp only [entries]

theorem filesAfter_cdev (files : String → Bool) (cs : List Syscall) :
    filesAfter ans files (.calloc :: .openFile (cdevPath ctrl.devId) false :: cs) =
      filesAfter ans files cs := rfl

theorem filesAfter_cleanup (files : String → Bool) :
    filesAfter ans files [.close garbage, .unlink path] = Function.update files path false := rfl

/-- Nothing but a garbage `pid_fd` that equals it closes the descriptor of the character device. -/
theorem held_failed {es : List (Entry ℤ)} {opened : List ℤ}
    (hes : es = [] ∨ es = [.acquire pidFile, .release pidFile]) (hne : garbage ≠ fd) :
    Ledger.held [fd] (es ++ entries ans table opened [.close garbage, .unlink path]) = [fd] := by
  have hes' : Ledger.held [fd] es = [fd] := by
    rcases hes with rfl | rfl <;> simp
  rw [Ledger.held_append, hes', entries_cleanup]
  split_ifs
  · simp [Ne.symm hne]
  · rfl

theorem settled_failed {es : List (Entry ℤ)} {opened : List ℤ}
    (hes : es = [] ∨ es = [.acquire pidFile, .release pidFile]) (hmem : fd ∈ opened) :
    Ledger.Settled (.acquire fd :: (es ++ entries ans table opened [.close fd, .unlink path])) := by
  have hheld : Ledger.held [fd] es = [fd] := by
    rcases hes with rfl | rfl <;> simp
  have hstrays : Ledger.strays [fd] es = [] := by
    rcases hes with rfl | rfl
    · rfl
    · simp [Ledger.strays]
  have hclose : entries ans table opened [.close fd, .unlink path] = [.release fd] := by
    rw [entries_cleanup, if_pos]
    simp [hmem]
  constructor
  · rw [Ledger.held_acquire, Ledger.held_append, hheld, hclose]
    simp
  · rw [Ledger.strays_acquire, Ledger.strays_append, hheld, hstrays, hclose]
    simp [Ledger.strays]

variable {files : String → Bool}

theorem Disciplined.of_unopened {cs : List Syscall} (he : entries ans table [] cs = [])
    (hf : filesAfter ans files cs = files) : Disciplined ans table files ctrl none cs := by
  constructor
  · rw [he]
    rfl
  · intro _
    rw [he]
    rfl
  · intro _ path hpath
    rw [hf]
    exact hpath
  · rintro d ⟨⟩
  · rintro d ⟨⟩

theorem Disciplined.of_returned {cs : List Syscall} {d : CharDev}
    (hs : Ledger.strays [] (entries ans table [] cs) = [])
    (hc : d.cdevFd ∈ Ledger.held [] (entries ans table [] cs))
    (hp : ctrl.runDir ≠ none →
      d.pidFileFd ∈ Ledger.held [] (entries ans table [] cs) ∧ d.pidFileFd ≠ d.cdevFd) :
    Disciplined ans table files ctrl (some d) cs := by
  constructor
  · exact hs
  · rintro ⟨⟩
  · rintro ⟨⟩
  · rintro d ⟨⟩
    exact hc
  · rintro d ⟨⟩
    exact hp

theorem disciplined_failed_iff (hd : Documented ans table ctrl) (hm : ans .calloc ≠ 0)
    (hfd : cdevFd ans ctrl = fd) (h : 0 ≤ fd) (hr : ctrl.runDir = some runDir)
    (hw : ¬ Written ans pid (pidFd ans ctrl runDir)) :
    Disciplined ans table files ctrl ((ublksrvDevInit ctrl pid garbage).eval ans)
      ((ublksrvDevInit ctrl pid garbage).trace ans) ↔ garbage = fd := by
  have hneg : pidFd ans ctrl runDir < 0 → pidFd ans ctrl runDir = -1 := by
    intro hlt
    rcases hd.pidFile runDir hr with hp | ⟨hp, -⟩
    · exact hp
    · omega
  obtain ⟨hp, hes, hfiles⟩ := createPidFile_failed pid garbage table [fd] files rfl hneg
    (hd.ftruncate _) hw
  obtain ⟨hnone, htrace⟩ := ublksrvDevInit_failed pid garbage hm hfd h hr hp
  have hentries : entries ans table [] ((ublksrvDevInit ctrl pid garbage).trace ans) =
      .acquire fd :: (entries ans table [fd]
        ((createPidFile (pidPath runDir ctrl.devId) pid garbage).trace ans) ++
          entries ans table (openedBy ans [fd]
            ((createPidFile (pidPath runDir ctrl.devId) pid garbage).trace ans))
              [.close garbage, .unlink (pidPath runDir ctrl.devId)]) := by
    rw [htrace, entries_cdev hfd h, entries_append]
  constructor
  · intro hdis
    by_contra hne
    have hheld := hdis.closed hnone
    rw [hentries, Ledger.held_acquire, held_failed garbage hes hne] at hheld
    cases hheld
  · rintro rfl
    have hsettled : Ledger.Settled
        (entries ans table [] ((ublksrvDevInit ctrl pid garbage).trace ans)) := by
      rw [hentries]
      exact settled_failed hes (mem_openedBy (List.mem_singleton_self garbage) _)
    rw [hnone]
    constructor
    · exact hsettled.strays
    · intro _
      exact hsettled.held
    · intro _ p hfile
      rw [htrace, filesAfter_cdev, filesAfter_append, filesAfter_cleanup, Function.update_apply]
      split_ifs
      · rfl
      · exact hfiles p hfile
    · rintro d ⟨⟩
    · rintro d ⟨⟩

theorem disciplined_written (hd : Documented ans table ctrl) (hm : ans .calloc ≠ 0)
    (hfd : cdevFd ans ctrl = fd) (h : 0 ≤ fd) (hr : ctrl.runDir = some runDir)
    (hw : Written ans pid (pidFd ans ctrl runDir)) :
    Disciplined ans table files ctrl ((ublksrvDevInit ctrl pid garbage).eval ans)
      ((ublksrvDevInit ctrl pid garbage).trace ans) := by
  obtain ⟨hp, hcalls⟩ := createPidFile_written pid garbage rfl hw
  obtain ⟨hsome, htrace⟩ := ublksrvDevInit_done pid garbage hm hfd h hr hp
  have hopened := hw.opened
  have hne : pidFd ans ctrl runDir ≠ cdevFd ans ctrl := by
    rcases hd.pidFile runDir hr with hneg | ⟨-, -, hne⟩
    · omega
    · exact hne
  have hentries : entries ans table [] ((ublksrvDevInit ctrl pid garbage).trace ans) =
      [.acquire fd, .acquire (pidFd ans ctrl runDir)] := by
    rw [pidFd] at hopened
    rw [htrace, hcalls, entries_cdev hfd h]
    simp only [entries, hopened, if_true, pidFd]
  have hheld : Ledger.held [] (entries ans table [] ((ublksrvDevInit ctrl pid garbage).trace ans)) =
      [pidFd ans ctrl runDir, fd] := by
    rw [hentries]
    rfl
  rw [hsome]
  apply Disciplined.of_returned
  · rw [hentries]
    rfl
  · rw [hheld]
    exact List.mem_cons_of_mem _ (List.mem_singleton_self fd)
  · intro _
    rw [hheld]
    constructor
    · exact List.mem_cons_self
    · rw [← hfd]
      exact hne

theorem disciplined_noRunDir (hm : ans .calloc ≠ 0) (hfd : cdevFd ans ctrl = fd) (h : 0 ≤ fd)
    (hr : ctrl.runDir = none) :
    Disciplined ans table files ctrl ((ublksrvDevInit ctrl pid garbage).eval ans)
      ((ublksrvDevInit ctrl pid garbage).trace ans) := by
  obtain ⟨hsome, htrace⟩ := ublksrvDevInit_noRunDir pid garbage hm hfd h hr
  rw [hsome, htrace]
  apply Disciplined.of_returned
  · rw [entries_cdev hfd h]
    rfl
  · rw [entries_cdev hfd h]
    exact List.mem_singleton_self fd
  · intro hne
    exact absurd hr hne

theorem ublksrvDevInit_disciplined_iff (hd : Documented ans table ctrl) :
    Disciplined ans table files ctrl ((ublksrvDevInit ctrl pid garbage).eval ans)
      ((ublksrvDevInit ctrl pid garbage).trace ans) ↔
    ans .calloc = 0 ∨ cdevFd ans ctrl < 0 ∨ PidFileWritten ans ctrl pid ∨
      garbage = cdevFd ans ctrl := by
  by_cases hm : ans .calloc = 0
  · obtain ⟨hnone, htrace⟩ := ublksrvDevInit_noMemory pid garbage ctrl hm
    rw [hnone, htrace]
    exact iff_of_true (.of_unopened rfl rfl) (.inl hm)
  rcases Int.lt_or_le (cdevFd ans ctrl) 0 with hneg | hpos
  · obtain ⟨hnone, htrace⟩ := ublksrvDevInit_unopened pid garbage hm rfl hneg
    rw [hnone, htrace]
    apply iff_of_true _ (.inr (.inl hneg))
    rw [cdevFd] at hneg
    apply Disciplined.of_unopened
    · simp [entries, Int.not_le.mpr hneg]
    · rfl
  cases hr : ctrl.runDir with
  | none =>
    have hall : PidFileWritten ans ctrl pid := by
      intro runDir hdir
      cases hr.symm.trans hdir
    exact iff_of_true (disciplined_noRunDir pid garbage hm rfl hpos hr) (.inr (.inr (.inl hall)))
  | some runDir =>
    by_cases hw : Written ans pid (pidFd ans ctrl runDir)
    · have hall : PidFileWritten ans ctrl pid := by
        intro dir hdir
        cases hr.symm.trans hdir
        exact hw
      exact iff_of_true (disciplined_written pid garbage hd hm rfl hpos hr hw) (.inr (.inr (.inl hall)))
    · rw [disciplined_failed_iff pid garbage hd hm rfl hpos hr hw]
      constructor
      · exact fun hg => .inr (.inr (.inr hg))
      · rintro (h0 | hneg | hall | hg)
        · exact absurd h0 hm
        · omega
        · exact absurd (hall runDir hr) hw
        · exact hg

/-- A system in which every call succeeds but perhaps the two of `open`. -/
def answers (cdev pidFile : ℤ) : Syscall → ℤ
  | .calloc => 1
  | .openFile _ creat => if creat then pidFile else cdev
  | .ftruncate _ => 0
  | .write _ buf => buf.utf8ByteSize
  | .close _ => 0
  | .unlink _ => 0

def standardFds (fd : ℤ) : Bool := decide (0 ≤ fd) && decide (fd < 3)

theorem answers_documented (pidFile : ℤ) (h : pidFile = -1 ∨ pidFile = 4) (ctrl : CtrlDev) :
    Documented (answers 3 pidFile) standardFds ctrl := by
  constructor
  · right
    exact ⟨(by decide : (0 : ℤ) ≤ 3), rfl⟩
  · intro runDir _
    rcases h with rfl | rfl
    · left
      rfl
    · right
      exact ⟨(by decide : (0 : ℤ) ≤ 4), rfl, (by decide : (4 : ℤ) ≠ 3)⟩
  · intro fd
    left
    rfl

theorem ublksrvDevInit_leaks :
    ¬ Disciplined (answers 3 (-1)) standardFds (fun _ => false) ⟨0, some "/tmp/ublksrvd"⟩
      ((ublksrvDevInit ⟨0, some "/tmp/ublksrvd"⟩ 1 7).eval (answers 3 (-1)))
      ((ublksrvDevInit ⟨0, some "/tmp/ublksrvd"⟩ 1 7).trace (answers 3 (-1))) := by
  rw [ublksrvDevInit_disciplined_iff 1 7 (answers_documented (-1) (.inl rfl) ⟨0, some "/tmp/ublksrvd"⟩)]
  rintro (h | h | h | h)
  · cases h
  · cases h
  · cases (h _ rfl).opened
  · cases h

/-- The garbage 0 is the standard input, which the cleanup closes. -/
theorem ublksrvDevInit_not_disciplined :
    ¬ ∀ ans table files ctrl pid garbage, Documented ans table ctrl →
      Disciplined ans table files ctrl ((ublksrvDevInit ctrl pid garbage).eval ans)
        ((ublksrvDevInit ctrl pid garbage).trace ans) := by
  intro h
  have hclose := (h (answers 3 (-1)) standardFds (fun _ => false) ⟨0, some "/tmp/ublksrvd"⟩ 1 0
    (answers_documented (-1) (.inl rfl) _)).closes
  revert hclose
  decide

end GoUblksrv.Device
