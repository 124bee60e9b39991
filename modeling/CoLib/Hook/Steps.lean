/-
# `CoLib.Hook.Steps` — what a step of a waiting call does

`Does a s act s'` lists the steps of `IoSys` by what they need and what they change:
the call's own, those of the callbacks of its timers, and those of others, which
touch neither the call nor its timers.  An invariant of the call is then checked
against this list instead of the step function.

The two waiting functions differ in what becomes of a result, of a wait that is over
and of a refused `addEvent`.
-/
import CoLib.Hook.DoIo

namespace CoLib

open Lib Relation

variable {S F C T : Type}

namespace IoSys

/-- What `addEvent` is given by a waiting call. -/
def addArgs (a : WaitArgs S F) : IOManager.AddArgs S F C :=
  { cb := none, scheduler := a.scheduler, fiber := a.fiber, exec := true }

/-- The call's `addEvent`, and what it returns. -/
def addEvent (a : WaitArgs S F) (s : IoSys S F C T) (ok : Bool) :
    Except Failure (IOManager S F C × Int) :=
  s.mgr.addEvent a.fd a.ctx a.event (addArgs a) (ok && (s.kernel a.fd).isSome)

/-- Where the call goes on from `disarm`. -/
def AfterDisarm (a : WaitArgs S F) (pc pc' : IoPc) : Prop :=
  pc = .resumed ∧ pc' = .test ∨
  pc = .refused ∧ a.kind = .do_io ∧ pc' = .ret (-1) none ∨
  pc = .refused ∧ a.kind = .connect_with_timeout ∧ pc' = .getsockopt

/-- Where the call goes on from `test`. -/
def AfterTest (a : WaitArgs S F) (cancelled : Option Errno) (pc' : IoPc) : Prop :=
  (∃ e, cancelled = some e ∧ pc' = .ret (-1) (some e)) ∨
  cancelled = none ∧ a.kind = .do_io ∧ pc' = .call ∨
  cancelled = none ∧ a.kind = .connect_with_timeout ∧ pc' = .getsockopt

/-- Where the call goes on from `getsockopt`. -/
def AfterGetsockopt (r : SysResult) (error : Option Errno) (pc' : IoPc) : Prop :=
  r.n = -1 ∧ pc' = .ret (-1) (some r.errno) ∨
  r.n ≠ -1 ∧ error = none ∧ pc' = .ret 0 none ∨
  r.n ≠ -1 ∧ ∃ e, error = some e ∧ pc' = .ret (-1) (some e)

/-- A step of a callback that touches nothing but how far it is. -/
inductive Callback (s : IoSys S F C T) : IoAct S F C T → Nat → CondTimer → CondTimer → Prop
  | expire (i : Nat) : Callback s (.expire i) i .armed .taken
  | lock (i : Nat) : Callback s (.lock i) i .taken (if s.alive then .locked else .over)
  | check (i : Nat) :
      Callback s (.check i) i .locked (if s.cancelled.isSome then .over else .passed)

/-- The steps. -/
inductive Does (a : WaitArgs S F) (s : IoSys S F C T) : IoAct S F C T → IoSys S F C T → Prop
  | enter : s.pc = .entry → Does a s .enter (s.enter a)
  | plain (r : SysResult) : s.pc = .plain → (s.kernel a.fd = none → r = ⟨-1, .EBADF⟩) →
      Does a s (.call r) { s with pc := .ret r.n (some r.errno) }
  | call (r : SysResult) : s.pc = .call → (s.kernel a.fd = none → r = ⟨-1, .EBADF⟩) →
      Does a s (.call r) (s.callResult a r)
  | arm : s.pc = .arm → Does a s .arm s.arm
  | added (ok : Bool) (mgr : IOManager S F C) : s.pc = .add → s.addEvent a ok = .ok (mgr, 0) →
      Does a s (.add ok) { s with mgr, pc := .yield, reg := some s.mgr.nextReg }
  | refused (ok : Bool) (mgr : IOManager S F C) (rt : Int) : s.pc = .add →
      s.addEvent a ok = .ok (mgr, rt) → rt ≠ 0 → Does a s (.add ok) { s with mgr, pc := .refused }
  | yield : s.pc = .yield → Does a s .yield { s with pc := .parked }
  | resume : s.pc = .parked → s.handed = true → Does a s .resume { s with pc := .resumed }
  | disarm (pc' : IoPc) : AfterDisarm a s.pc pc' →
      Does a s .disarm { s.cancelTimer with pc := pc' }
  | test (pc' : IoPc) : s.pc = .test → AfterTest a s.cancelled pc' →
      Does a s .test { s with pc := pc' }
  | getsockopt (r : SysResult) (error : Option Errno) (pc' : IoPc) : s.pc = .getsockopt →
      AfterGetsockopt r error pc' → Does a s (.getsockopt r error) { s with pc := pc' }
  | callback {act : IoAct S F C T} {i : Nat} {t t' : CondTimer} : s.timers[i]? = some t →
      s.Callback act i t t' → Does a s act (s.setTimer i t')
  | set (i : Nat) : s.timers[i]? = some .passed →
      Does a s (.set i) { s.setTimer i .owing with cancelled := some .ETIMEDOUT }
  | cancelEvent (i : Nat) (ok b : Bool) (mgr : IOManager S F C) : s.timers[i]? = some .owing →
      s.mgr.cancelEvent a.fd a.ctx a.event ok = .ok (mgr, b) →
      Does a s (.cancelEvent i ok) { s.setTimer i .over with mgr }
  | foreign {act : IoAct S F C T} (kernel : Kernel) (opened : Nat) (fds : FdManager)
      (mgr : IOManager S F C) (reports : T → List Report) (others : T → ClosePhase) :
      act.foreign = true → ReflTransGen (IOManager.Move fun _ => True) s.mgr mgr →
      (opened = s.opened ∨ ∃ t file hooked, act = .socket t file hooked) →
      Does a s act { s with kernel, opened, fds, mgr, reports, others }

variable {a : WaitArgs S F} {s s' : IoSys S F C T}

theorem add_does {ok : Bool} (hpc : s.pc = .add) (h : s.add a ok = .ok s') :
    Does a s (.add ok) s' := by
  obtain ⟨⟨mgr, rt⟩, hrun, h⟩ := bind_ok h
  dsimp only at h
  split at h
  · rename_i hrt
    obtain rfl := Except.ok.inj h
    exact .added ok mgr hpc (hrt ▸ hrun)
  · rename_i hrt
    obtain rfl := Except.ok.inj h
    exact .refused ok mgr rt hpc hrun hrt

/-- Every step is in the list. -/
theorem step_does [DecidableEq T] {act : IoAct S F C T} (h : s.step a act = some (.ok s')) :
    Does a s act s' := by
  by_cases hforeign : act.foreign = true
  · obtain ⟨kernel, opened, fds, mgr, reports, others, rfl, hmoves, hopened⟩ :=
      (step_others hforeign h).frame
    exact .foreign kernel opened fds mgr reports others hforeign hmoves hopened
  cases act with
  | enter =>
      simp only [step] at h
      split at h
      · obtain rfl := Except.ok.inj (Option.some.inj h)
        exact .enter ‹_›
      · cases h
  | call r =>
      simp only [step] at h
      split at h
      · cases h
      · rename_i hopen
        have hclosed : s.kernel a.fd = none → r = ⟨-1, .EBADF⟩ := by
          intro hnone
          rw [hnone] at hopen
          exact not_not.mp (not_and.mp hopen rfl)
        split at h
        · obtain rfl := Except.ok.inj (Option.some.inj h)
          exact .plain r ‹_› hclosed
        · obtain rfl := Except.ok.inj (Option.some.inj h)
          exact .call r ‹_› hclosed
        · cases h
  | arm =>
      simp only [step] at h
      split at h
      · obtain rfl := Except.ok.inj (Option.some.inj h)
        exact .arm ‹_›
      · cases h
  | add ok =>
      simp only [step] at h
      split at h
      · exact add_does ‹_› (Option.some.inj h)
      · cases h
  | yield =>
      simp only [step] at h
      split at h
      · obtain rfl := Except.ok.inj (Option.some.inj h)
        exact .yield ‹_›
      · cases h
  | resume =>
      simp only [step] at h
      split at h
      · rename_i hcond
        obtain rfl := Except.ok.inj (Option.some.inj h)
        exact .resume hcond.1 hcond.2
      · cases h
  | disarm =>
      simp only [step] at h
      split at h
      · obtain rfl := Except.ok.inj (Option.some.inj h)
        exact .disarm _ (.inl ⟨‹_›, rfl⟩)
      · obtain rfl := Except.ok.inj (Option.some.inj h)
        exact .disarm _ (.inr (.inl ⟨‹_›, ‹_›, rfl⟩))
      · obtain rfl := Except.ok.inj (Option.some.inj h)
        exact .disarm _ (.inr (.inr ⟨‹_›, ‹_›, rfl⟩))
      · cases h
  | test =>
      simp only [step] at h
      split at h
      · obtain rfl := Except.ok.inj (Option.some.inj h)
        exact .test _ ‹_› (.inl ⟨_, ‹_›, rfl⟩)
      · obtain rfl := Except.ok.inj (Option.some.inj h)
        exact .test _ ‹_› (.inr (.inl ⟨‹_›, ‹_›, rfl⟩))
      · obtain rfl := Except.ok.inj (Option.some.inj h)
        exact .test _ ‹_› (.inr (.inr ⟨‹_›, ‹_›, rfl⟩))
      · cases h
  | getsockopt r error =>
      simp only [step] at h
      split at h
      · rename_i hpc
        split at h
        · rename_i hr
          obtain rfl := Except.ok.inj (Option.some.inj h)
          exact .getsockopt r error _ hpc (.inl ⟨hr, rfl⟩)
        · rename_i hr
          split at h
          · obtain rfl := Except.ok.inj (Option.some.inj h)
            exact .getsockopt r _ _ hpc (.inr (.inl ⟨hr, rfl, rfl⟩))
          · obtain rfl := Except.ok.inj (Option.some.inj h)
            exact .getsockopt r _ _ hpc (.inr (.inr ⟨hr, _, rfl, rfl⟩))
      · cases h
  | expire i =>
      simp only [step] at h
      split at h
      · obtain rfl := Except.ok.inj (Option.some.inj h)
        exact .callback ‹_› (.expire i)
      · cases h
  | lock i =>
      simp only [step] at h
      split at h
      · obtain rfl := Except.ok.inj (Option.some.inj h)
        exact .callback ‹_› (.lock i)
      · cases h
  | check i =>
      simp only [step] at h
      split at h
      · obtain rfl := Except.ok.inj (Option.some.inj h)
        exact .callback ‹_› (.check i)
      · cases h
  | set i =>
      simp only [step] at h
      split at h
      · obtain rfl := Except.ok.inj (Option.some.inj h)
        exact .set i ‹_›
      · cases h
  | cancelEvent i ok =>
      simp only [step] at h
      split at h
      · obtain ⟨⟨mgr, b⟩, hrun, h⟩ := bind_ok (Option.some.inj h)
        obtain rfl := Except.ok.inj h
        exact .cancelEvent i ok b mgr ‹_› hrun
      · cases h
  | _ => exact absurd rfl hforeign

/-! ## What a step leaves -/

/-- Only `enter` makes the checks, only `socket` and `accept` make the number stand for
another descriptor, and only the call's `addEvent` changes its registration. -/
structure Frame (a : WaitArgs S F) (s : IoSys S F C T) (act : IoAct S F C T)
    (s' : IoSys S F C T) : Prop where
  entry : s'.pc = .entry → s.pc = .entry
  checked : s'.pc.checked = true → s.pc.checked = true ∧ s'.enteredOn = s.enteredOn ∨
    s.pc = .entry ∧ act = .enter ∧ s'.enteredOn = some s.opened
  opened : s'.opened = s.opened ∨ ∃ t file hooked, act = .socket t file hooked
  reg : s'.reg = s.reg ∨ ∃ ok, s.addEvent a ok = .ok (s'.mgr, 0) ∧ s.pc = .add ∧
    s'.reg = some s.mgr.nextReg
  reports : act.foreign = false → s'.reports = s.reports
  moves : ReflTransGen (IOManager.Move fun _ => True) s.mgr s'.mgr

/-- The call, past its checks, goes on without its manager. -/
theorem Frame.goto {act : IoAct S F C T} {pc : IoPc} (hpc : s.pc = pc) (hc : pc.checked = true)
    (hentry : s'.pc ≠ .entry) (hon : s'.enteredOn = s.enteredOn) (hopened : s'.opened = s.opened)
    (hreg : s'.reg = s.reg) (hreports : s'.reports = s.reports) (hmgr : s'.mgr = s.mgr) :
    Frame a s act s' where
  entry := fun h => absurd h hentry
  checked := fun _ => .inl ⟨by rw [hpc, hc], hon⟩
  opened := .inl hopened
  reg := .inl hreg
  reports := fun _ => hreports
  moves := hmgr ▸ .refl

theorem does_frame {act : IoAct S F C T} (hdoes : Does a s act s') : Frame a s act s' := by
  cases hdoes with
  | enter hpc =>
      obtain ⟨pc, timeout, enteredOn, heq, hcases⟩ := enter_eq a s
      rw [heq]
      refine ⟨fun _ => hpc, fun h => ?_, .inl rfl, .inl rfl, fun _ => rfl, .refl⟩
      rcases hcases with ⟨hno, -⟩ | ⟨-, hon, -⟩
      · exact absurd (h.symm.trans hno) (by decide)
      · exact .inr ⟨hpc, rfl, hon⟩
  | plain r hpc =>
      exact ⟨fun h => absurd h (by simp), fun h => absurd h Bool.false_ne_true, .inl rfl,
        .inl rfl, fun _ => rfl, .refl⟩
  | call r hpc =>
      obtain ⟨pc, heq, hcases⟩ := callResult_eq a s r
      rw [heq]
      refine .goto hpc rfl ?_ rfl rfl rfl rfl rfl
      rcases hcases with rfl | rfl | rfl <;> simp [hpc]
  | arm hpc =>
      rw [IoSys.arm]
      split <;> exact .goto hpc rfl (by simp) rfl rfl rfl rfl rfl
  | added ok mgr hpc hadd =>
      exact ⟨fun h => absurd h (by simp), fun _ => .inl ⟨by rw [hpc]; rfl, rfl⟩, .inl rfl,
        .inr ⟨ok, hadd, hpc, rfl⟩, fun _ => rfl, IOManager.addEvent_moves trivial hadd⟩
  | refused ok mgr rt hpc hadd =>
      exact ⟨fun h => absurd h (by simp), fun _ => .inl ⟨by rw [hpc]; rfl, rfl⟩, .inl rfl,
        .inl rfl, fun _ => rfl, IOManager.addEvent_moves trivial hadd⟩
  | yield hpc => exact .goto hpc rfl (by simp) rfl rfl rfl rfl rfl
  | resume hpc => exact .goto hpc rfl (by simp) rfl rfl rfl rfl rfl
  | disarm pc' hafter =>
      obtain ⟨timers, heq, -⟩ := cancelTimer_eq s
      rw [heq]
      rcases hafter with ⟨hpc, rfl⟩ | ⟨hpc, -, rfl⟩ | ⟨hpc, -, rfl⟩ <;>
        exact .goto hpc rfl (by simp) rfl rfl rfl rfl rfl
  | test pc' hpc hafter =>
      refine .goto hpc rfl ?_ rfl rfl rfl rfl rfl
      rcases hafter with ⟨e, -, rfl⟩ | ⟨-, -, rfl⟩ | ⟨-, -, rfl⟩ <;> simp
  | getsockopt r error pc' hpc hafter =>
      refine .goto hpc rfl ?_ rfl rfl rfl rfl rfl
      rcases hafter with ⟨-, rfl⟩ | ⟨-, -, rfl⟩ | ⟨-, e, -, rfl⟩ <;> simp
  | callback => exact ⟨id, fun h => .inl ⟨h, rfl⟩, .inl rfl, .inl rfl, fun _ => rfl, .refl⟩
  | set => exact ⟨id, fun h => .inl ⟨h, rfl⟩, .inl rfl, .inl rfl, fun _ => rfl, .refl⟩
  | cancelEvent i ok b mgr ht hrun =>
      exact ⟨id, fun h => .inl ⟨h, rfl⟩, .inl rfl, .inl rfl, fun _ => rfl,
        IOManager.cancelEvent_moves hrun⟩
  | foreign kernel opened fds mgr reports others hforeign hmoves hopened =>
      exact ⟨id, fun h => .inl ⟨h, rfl⟩, hopened, .inl rfl,
        fun hown => absurd (hforeign.symm.trans hown) (by decide), hmoves⟩

/-- A call past its checks has the descriptor on which it began. -/
def Entered (s : IoSys S F C T) : Prop :=
  s.pc.checked = true → s.enteredOn = some s.opened

/-- It keeps it, unless the number is given out meanwhile. -/
theorem Entered.step (h : s.Entered) {act : IoAct S F C T} (hframe : Frame a s act s')
    (hsocket : ∀ t file hooked, act = .socket t file hooked → s.pc.checked = false) :
    s'.Entered := by
  intro hchecked
  have hopened : s.pc.checked = true ∨ act = .enter → s'.opened = s.opened := by
    intro hno
    rcases hframe.opened with hopened | ⟨t, file, hooked, rfl⟩
    · exact hopened
    · rcases hno with hno | hno
      · exact absurd (hno.symm.trans (hsocket t file hooked rfl)) (by decide)
      · cases hno
  rcases hframe.checked hchecked with ⟨hc, hon⟩ | ⟨-, hact, hon⟩
  · rw [hon, hopened (.inl hc)]
    exact h hc
  · rw [hon, hopened (.inr hact)]

end IoSys

end CoLib
