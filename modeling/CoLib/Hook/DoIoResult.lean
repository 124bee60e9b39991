/-
# `CoLib.Hook.DoIoResult` — what `do_io` returns, and what it leaves behind

`do_io` calls again after `EINTR`, and after `EAGAIN` waits: each round arms a timer
and registers the fiber, and all rounds share one `tinfo`.  The call returns from four
places.

**Proved here.**  In every run in which the call finds a managed socket that the user
wants to block: it returns the first result that is neither of the two, or is timed
out by a timer of its own, or fails with its `addEvent`; and when it has returned, none
of its timers is in the timer set, and none of its registrations in a mask, whichever
round it comes from and whatever a late callback still does.
-/
import CoLib.Hook.Registered

namespace CoLib

open Lib Relation

variable {S F C T : Type}

/-- The call may have an armed timer: it has armed one and not cancelled it yet. -/
def IoPc.mayArm : IoPc → Bool
  | .add | .yield | .parked | .resumed | .refused => true
  | _ => false

namespace IoSys

/-- What the steps of a call say of it. -/
abbrev History (S F C T : Type) := List (IoSys S F C T × IoAct S F C T)

/-- A socket that the user wants to block, which is open. -/
def BlockingSocket (ctx : FdCtx) : Prop :=
  ctx.isClosed = false ∧ ctx.isSocket = true ∧ ctx.userNonblock = false

/-- The record is one of such a socket, and hooks are enabled. -/
def Blocking (a : WaitArgs S F) (s : IoSys S F C T) : Prop :=
  a.hookEnable = true ∧ ∃ ctx, s.fds.find a.fd = some ctx ∧ BlockingSocket ctx

/-- The call begins on such a record. -/
def entersBlocking (a : WaitArgs S F) (s : IoSys S F C T) : IoAct S F C T → Prop
  | .enter => s.Blocking a
  | _ => True

/-- The result of the system call that a step brings. -/
def resultOf (e : IoSys S F C T × IoAct S F C T) : Option SysResult :=
  match e.2 with
  | .call r => some r
  | _ => none

/-- The results of the system call, in their order. -/
def results (es : History S F C T) : List SysResult :=
  es.filterMap resultOf

/-- `do_io` calls again. -/
def Again (r : SysResult) : Prop :=
  r = ⟨-1, .EINTR⟩ ∨ r = ⟨-1, .EAGAIN⟩

/-- A timer of the call has expired, and its callback has set `tinfo->cancelled`. -/
def Fired (es : History S F C T) : Prop :=
  ∃ i, (∃ u, (u, .expire i) ∈ es) ∧ ∃ u, (u, .set i) ∈ es

/-- The call has registered its fiber under the number `r`. -/
def Registers (a : WaitArgs S F) (es : History S F C T) (r : Nat) : Prop :=
  ∃ u ok mgr, (u, .add ok) ∈ es ∧ u.addEvent a ok = .ok (mgr, 0) ∧ r = u.mgr.nextReg

/-- An `addEvent` of the call has failed. -/
def AddFailed (a : WaitArgs S F) (es : History S F C T) : Prop :=
  ∃ u ok mgr rt, (u, .add ok) ∈ es ∧ u.addEvent a ok = .ok (mgr, rt) ∧ rt ≠ 0

/-- What the call may return; `errno` as far as the call has set it. -/
inductive Outcome (a : WaitArgs S F) (es : History S F C T) : Int → Option Errno → Prop
  | result (rs : List SysResult) (r : SysResult) : results es = rs ++ [r] →
      (∀ r' ∈ rs, Again r') → ¬ Again r → Outcome a es r.n (some r.errno)
  | timedOut : (∀ r ∈ results es, Again r) → Fired es →
      Outcome a es (-1) (some .ETIMEDOUT)
  | addFailed : (∀ r ∈ results es, Again r) → AddFailed a es → Outcome a es (-1) none

/-! ## Histories -/

variable {a : WaitArgs S F} {s s' u : IoSys S F C T} {es : History S F C T}
  {act : IoAct S F C T}

theorem mem_snoc {e e' : IoSys S F C T × IoAct S F C T} (h : e ∈ es) : e ∈ es ++ [e'] :=
  List.mem_append_left _ h

theorem mem_last (e : IoSys S F C T × IoAct S F C T) : e ∈ es ++ [e] :=
  List.mem_append_right _ (List.mem_singleton_self e)

theorem results_snoc (es : History S F C T) (e : IoSys S F C T × IoAct S F C T) :
    results (es ++ [e]) = results es ++ (resultOf e).toList := by
  rw [results, List.filterMap_append]
  cases h : resultOf e with
  | none => simp [results, h]
  | some r => simp [results, h]

theorem Fired.snoc (h : Fired es) (e : IoSys S F C T × IoAct S F C T) : Fired (es ++ [e]) := by
  obtain ⟨i, ⟨u, hu⟩, v, hv⟩ := h
  exact ⟨i, ⟨u, mem_snoc hu⟩, v, mem_snoc hv⟩

theorem AddFailed.snoc (h : AddFailed a es) (e : IoSys S F C T × IoAct S F C T) :
    AddFailed a (es ++ [e]) := by
  obtain ⟨u, ok, mgr, rt, hu, hadd, hrt⟩ := h
  exact ⟨u, ok, mgr, rt, mem_snoc hu, hadd, hrt⟩

/-- A step that brings no result changes no outcome. -/
theorem Outcome.snoc {n : Int} {e : Option Errno} (h : Outcome a es n e)
    {last : IoSys S F C T × IoAct S F C T} (hlast : resultOf last = none) :
    Outcome a (es ++ [last]) n e := by
  have hsame : results (es ++ [last]) = results es := by
    rw [results_snoc, hlast]
    exact List.append_nil _
  cases h with
  | result rs r hres hall hnot => exact .result rs r (hsame.trans hres) hall hnot
  | timedOut hall hfired => exact .timedOut (hsame ▸ hall) (hfired.snoc last)
  | addFailed hall hadd => exact .addFailed (hsame ▸ hall) (hadd.snoc last)

theorem registers_snoc {r : Nat} (h : Registers a (es ++ [(s, act)]) r) :
    Registers a es r ∨ ∃ ok mgr, act = .add ok ∧ s.addEvent a ok = .ok (mgr, 0) ∧
      r = s.mgr.nextReg := by
  obtain ⟨u, ok, mgr, hu, hadd, hr⟩ := h
  rcases List.mem_append.mp hu with hu | hu
  · exact .inl ⟨u, ok, mgr, hu, hadd, hr⟩
  · obtain ⟨rfl, rfl⟩ := Prod.mk.inj (List.mem_singleton.mp hu)
    exact .inr ⟨ok, mgr, rfl, hadd, hr⟩

/-! ## The timers -/

/-- At most the timer of this round is armed; a timer that was not cancelled in time
has expired; and the flag is set by a callback. -/
structure TimersOk (es : History S F C T) (s : IoSys S F C T) : Prop where
  armed : ∀ i : Nat, s.timers[i]? = some .armed → s.timer = some i ∧ s.pc.mayArm = true
  fired : ∀ (i : Nat) t, s.timers[i]? = some t →
    t = .armed ∨ t = .cancelled ∨ ∃ u, (u, .expire i) ∈ es
  cancelled : ∀ e, s.cancelled = some e → e = .ETIMEDOUT ∧ Fired es

theorem timersOk_init (kernel : Kernel) (fds : FdManager) (mgr : IOManager S F C) :
    TimersOk [] (init kernel fds mgr : IoSys S F C T) where
  armed := fun i h => absurd h (by simp [init])
  fired := fun i t h => absurd h (by simp [init])
  cancelled := fun e h => absurd h (by simp [init])

/-- What has become of a timer stays so. -/
theorem TimersOk.fired_snoc (h : TimersOk es s) {i : Nat} {t : CondTimer}
    (ht : s.timers[i]? = some t) (e : IoSys S F C T × IoAct S F C T) :
    t = .armed ∨ t = .cancelled ∨ ∃ u, (u, .expire i) ∈ es ++ [e] :=
  (h.fired i t ht).imp_right (Or.imp_right fun ⟨u, hu⟩ => ⟨u, mem_snoc hu⟩)

theorem TimersOk.cancelled_snoc (h : TimersOk es s) {errno : Errno}
    (hcan : s.cancelled = some errno) (e : IoSys S F C T × IoAct S F C T) :
    errno = .ETIMEDOUT ∧ Fired (es ++ [e]) :=
  (h.cancelled errno hcan).imp_right (·.snoc e)

/-- The call goes on, its timers being as they are. -/
theorem TimersOk.goto (h : TimersOk es s) (e : IoSys S F C T × IoAct S F C T)
    (htimers : s'.timers = s.timers) (htimer : s'.timer = s.timer)
    (hcan : s'.cancelled = s.cancelled) (hpc : s.pc.mayArm = true → s'.pc.mayArm = true) :
    TimersOk (es ++ [e]) s' where
  armed := fun i hi => by
    rw [htimers] at hi
    obtain ⟨ht, hm⟩ := h.armed i hi
    exact ⟨htimer.trans ht, hpc hm⟩
  fired := fun i t hi => by
    rw [htimers] at hi
    exact h.fired_snoc hi e
  cancelled := fun e' he => by
    rw [hcan] at he
    exact h.cancelled_snoc he e

/-- A callback goes on from `t` to `t'`, and may set the flag. -/
theorem TimersOk.setTimer (h : TimersOk es s) {i : Nat} {t t' : CondTimer}
    (ht : s.timers[i]? = some t) (hexp : ∃ u, (u, .expire i) ∈ es ++ [(s, act)])
    (htimers : s'.timers = s.timers.set i t') (htimer : s'.timer = s.timer) (hpc : s'.pc = s.pc)
    (harm : t' ≠ .armed)
    (hcan : ∀ e, s'.cancelled = some e → s.cancelled = some e ∨ e = .ETIMEDOUT ∧ act = .set i) :
    TimersOk (es ++ [(s, act)]) s' where
  armed := fun j hj => by
    rw [htimers] at hj
    by_cases hij : i = j
    · subst hij
      rw [List.getElem?_set_self (List.getElem?_eq_some_iff.mp ht).1] at hj
      exact absurd (Option.some.inj hj) harm
    · rw [List.getElem?_set_ne hij] at hj
      obtain ⟨htj, hm⟩ := h.armed j hj
      exact ⟨htimer.trans htj, by rw [hpc]; exact hm⟩
  fired := fun j t₁ hj => by
    rw [htimers] at hj
    by_cases hij : i = j
    · subst hij
      exact .inr (.inr hexp)
    · rw [List.getElem?_set_ne hij] at hj
      exact h.fired_snoc hj _
  cancelled := fun e he => by
    rcases hcan e he with he | ⟨rfl, rfl⟩
    · exact h.cancelled_snoc he _
    · exact ⟨rfl, i, hexp, s, mem_last _⟩

/-- A timer that is past `listExpiredCb` has expired. -/
theorem TimersOk.expired (h : TimersOk es s) {i : Nat} {t : CondTimer}
    (ht : s.timers[i]? = some t) (harm : t ≠ .armed) (hcan : t ≠ .cancelled)
    (e : IoSys S F C T × IoAct S F C T) : ∃ u, (u, .expire i) ∈ es ++ [e] := by
  rcases h.fired_snoc ht e with rfl | rfl | hexp
  · exact absurd rfl harm
  · exact absurd rfl hcan
  · exact hexp

theorem timer_not_armed (h : TimersOk es s) (hpc : s.pc.mayArm = false) (i : Nat) :
    s.timers[i]? ≠ some .armed := by
  intro hi
  exact absurd ((h.armed i hi).2) (by rw [hpc]; exact Bool.false_ne_true)

theorem TimersOk.arm (h : TimersOk es s) (hpc : s.pc = .arm)
    (e : IoSys S F C T × IoAct S F C T) : TimersOk (es ++ [e]) s.arm := by
  have hnone : ∀ i : Nat, s.timers[i]? ≠ some CondTimer.armed :=
    timer_not_armed h (by rw [hpc]; rfl)
  rw [IoSys.arm]
  split
  · exact
      { armed := fun i hi => absurd hi (hnone i)
        fired := fun i t hi => h.fired_snoc hi e
        cancelled := fun e' he => h.cancelled_snoc he e }
  · refine ⟨fun i hi => ?_, fun i t hi => ?_, fun e' he => h.cancelled_snoc he e⟩
    · rcases Nat.lt_or_ge i s.timers.length with hlt | hge
      · exact absurd ((List.getElem?_append_left hlt).symm.trans hi) (hnone i)
      · have hlt := (List.getElem?_eq_some_iff.mp hi).1
        rw [List.length_append, List.length_singleton] at hlt
        obtain rfl : i = s.timers.length := by omega
        exact ⟨rfl, rfl⟩
    · rcases Nat.lt_or_ge i s.timers.length with hlt | hge
      · have hold := (List.getElem?_append_left hlt).symm.trans hi
        exact h.fired_snoc hold e
      · have hmem := (List.getElem?_append_right hge).symm.trans hi
        obtain rfl := List.mem_singleton.mp (List.mem_of_getElem? hmem)
        exact .inl rfl

/-- Cancelling leaves no timer armed. -/
theorem TimersOk.cancelTimer (h : TimersOk es s) (e : IoSys S F C T × IoAct S F C T)
    (pc : IoPc) : TimersOk (es ++ [e]) { s.cancelTimer with pc } := by
  cases htimer : s.timer with
  | none =>
      have heq : s.cancelTimer = s := by
        rw [IoSys.cancelTimer, htimer]
      rw [heq]
      refine ⟨fun i hi => ?_, fun i t hi => h.fired_snoc hi e,
        fun e' he => h.cancelled_snoc he e⟩
      exact absurd ((h.armed i hi).1.symm.trans htimer) (by simp)
  | some j =>
      have heq : s.cancelTimer = { s with timers := s.timers.modify j CondTimer.cancel } := by
        rw [IoSys.cancelTimer, htimer]
      rw [heq]
      -- what becomes of each timer
      have hmod : ∀ (i : Nat) t, (s.timers.modify j CondTimer.cancel)[i]? = some t →
          t ≠ .armed ∧ (t = .cancelled ∨ s.timers[i]? = some t) := by
        intro i t hi
        rw [List.getElem?_modify] at hi
        split at hi
        · obtain ⟨t₀, ht₀, rfl⟩ := Option.map_eq_some_iff.mp hi
          cases t₀ with
          | armed => exact ⟨by decide, .inl rfl⟩
          | _ => exact ⟨by decide, .inr ht₀⟩
        · rename_i hij
          have hi : s.timers[i]? = some t := by simpa using hi
          refine ⟨?_, .inr hi⟩
          rintro rfl
          exact hij (Option.some.inj (htimer.symm.trans (h.armed i hi).1))
      refine ⟨fun i hi => absurd rfl (hmod i _ hi).1, fun i t hi => ?_,
        fun e' he => h.cancelled_snoc he e⟩
      rcases (hmod i t hi).2 with rfl | hold
      · exact .inr (.inl rfl)
      · exact h.fired_snoc hold e

theorem TimersOk.step (h : TimersOk es s) (hdoes : Does a s act s') :
    TimersOk (es ++ [(s, act)]) s' := by
  have hstay : ∀ {pc : IoPc} {b : Bool}, s.pc = pc → pc.mayArm = false → s.pc.mayArm = true →
      b = true := by
    intro pc b hpc hno hyes
    rw [hpc, hno] at hyes
    cases hyes
  cases hdoes with
  | enter hpc =>
      obtain ⟨pc, timeout, enteredOn, heq, -⟩ := enter_eq a s
      rw [heq]
      exact h.goto _ rfl rfl rfl (hstay hpc rfl)
  | plain r hpc => exact h.goto _ rfl rfl rfl (hstay hpc rfl)
  | call r hpc =>
      obtain ⟨pc, heq, -⟩ := callResult_eq a s r
      rw [heq]
      exact h.goto _ rfl rfl rfl (hstay hpc rfl)
  | arm hpc => exact h.arm hpc _
  | added ok mgr hpc hadd => exact h.goto _ rfl rfl rfl fun _ => rfl
  | refused ok mgr rt hpc hadd hrt => exact h.goto _ rfl rfl rfl fun _ => rfl
  | yield hpc => exact h.goto _ rfl rfl rfl fun _ => rfl
  | resume hpc hhanded => exact h.goto _ rfl rfl rfl fun _ => rfl
  | disarm pc' hafter => exact h.cancelTimer _ pc'
  | test pc' hpc hafter => exact h.goto _ rfl rfl rfl (hstay hpc rfl)
  | getsockopt r error pc' hpc hafter => exact h.goto _ rfl rfl rfl (hstay hpc rfl)
  | @callback _ i t t' ht hcb =>
      cases hcb with
      | expire => exact h.setTimer ht ⟨s, mem_last _⟩ rfl rfl rfl (by decide) fun _ => .inl
      | lock =>
          refine h.setTimer ht (h.expired ht (by decide) (by decide) _) rfl rfl rfl ?_ fun _ => .inl
          split <;> decide
      | check =>
          refine h.setTimer ht (h.expired ht (by decide) (by decide) _) rfl rfl rfl ?_ fun _ => .inl
          split <;> decide
  | set i ht =>
      refine h.setTimer ht (h.expired ht (by decide) (by decide) _) rfl rfl rfl (by decide) ?_
      intro e he
      exact .inr ⟨(Option.some.inj he).symm, rfl⟩
  | cancelEvent i ok b mgr ht hrun =>
      exact h.setTimer ht (h.expired ht (by decide) (by decide) _) rfl rfl rfl (by decide)
        fun _ => .inl
  | foreign kernel opened fds mgr reports others hforeign hmoves => exact h.goto _ rfl rfl rfl id

/-! ## The registrations -/

/-- Every registration of the call is its own, and was handed over, except for the one
it waits for. -/
structure RegsOk (a : WaitArgs S F) (es : History S F C T) (s : IoSys S F C T) : Prop where
  numbered : s.mgr.Numbered
  own : ∀ r, Registers a es r → s.mgr.Own a.ctx a.event r
  handed : ∀ r, Registers a es r →
    s.mgr.Handed r ∨ (s.pc = .yield ∨ s.pc = .parked) ∧ s.reg = some r

theorem not_registers_nil {r : Nat} : ¬ Registers a ([] : History S F C T) r := by
  rintro ⟨u, ok, mgr, hu, -⟩
  exact absurd hu List.not_mem_nil

theorem regsOk_init (a : WaitArgs S F) (kernel : Kernel) (fds : FdManager) :
    RegsOk a [] (init kernel fds .create : IoSys S F C T) where
  numbered := IOManager.numbered_create
  own := fun _ h => absurd h not_registers_nil
  handed := fun _ h => absurd h not_registers_nil

/-- The manager moves, and the call does not register. -/
theorem RegsOk.moves (h : RegsOk a es s) (hact : ∀ ok, act ≠ .add ok)
    (hmoves : ReflTransGen (IOManager.Move fun _ => True) s.mgr s'.mgr)
    (hwait : ∀ r, (s.pc = .yield ∨ s.pc = .parked) ∧ s.reg = some r →
      s'.mgr.Handed r ∨ (s'.pc = .yield ∨ s'.pc = .parked) ∧ s'.reg = some r) :
    RegsOk a (es ++ [(s, act)]) s' := by
  have hold : ∀ r, Registers a (es ++ [(s, act)]) r → Registers a es r := by
    intro r hr
    rcases registers_snoc hr with hr | ⟨ok, mgr, rfl, -⟩
    · exact hr
    · exact absurd rfl (hact ok)
  refine ⟨IOManager.numbered_moves h.numbered hmoves, fun r hr => ?_, fun r hr => ?_⟩
  · exact IOManager.own_moves (h.own r (hold r hr)) hmoves
  · rcases h.handed r (hold r hr) with hh | hw
    · exact .inl (IOManager.handed_moves hh hmoves)
    · exact hwait r hw

theorem RegsOk.goto (h : RegsOk a es s) (hact : ∀ ok, act ≠ .add ok) (hmgr : s'.mgr = s.mgr)
    (hpc : s.pc ≠ .yield ∧ s.pc ≠ .parked) : RegsOk a (es ++ [(s, act)]) s' := by
  refine h.moves hact (hmgr ▸ .refl) fun r hw => ?_
  exact absurd hw.1 (not_or.mpr hpc)

theorem RegsOk.added (h : RegsOk a es s) {ok : Bool} {mgr : IOManager S F C}
    (hpc : s.pc = .add) (hadd : s.addEvent a ok = .ok (mgr, 0)) :
    RegsOk a (es ++ [(s, .add ok)])
      { s with mgr, pc := .yield, reg := some s.mgr.nextReg } := by
  have hmoves : ReflTransGen (IOManager.Move fun _ => True) s.mgr mgr :=
    IOManager.addEvent_moves trivial hadd
  obtain ⟨hown, -⟩ := IOManager.addEvent_own h.numbered hadd
  refine ⟨IOManager.numbered_moves h.numbered hmoves, fun r hr => ?_, fun r hr => ?_⟩
  · rcases registers_snoc hr with hr | ⟨_, _, _, -, rfl⟩
    · exact IOManager.own_moves (h.own r hr) hmoves
    · exact hown
  · rcases registers_snoc hr with hr | ⟨_, _, _, -, rfl⟩
    · rcases h.handed r hr with hh | ⟨hw, -⟩
      · exact .inl (IOManager.handed_moves hh hmoves)
      · rcases hw with hw | hw <;> exact absurd (hpc.symm.trans hw) (by simp)
    · exact .inr ⟨.inl rfl, rfl⟩

theorem RegsOk.step (h : RegsOk a es s) (hdoes : Does a s act s') :
    RegsOk a (es ++ [(s, act)]) s' := by
  cases hdoes with
  | enter hpc =>
      obtain ⟨pc, timeout, enteredOn, heq, -⟩ := enter_eq a s
      rw [heq]
      exact h.goto (by simp) rfl (by simp [hpc])
  | plain r hpc => exact h.goto (by simp) rfl (by simp [hpc])
  | call r hpc =>
      obtain ⟨pc, heq, -⟩ := callResult_eq a s r
      rw [heq]
      exact h.goto (by simp) rfl (by simp [hpc])
  | arm hpc =>
      refine h.goto (by simp) ?_ (by simp [hpc])
      rw [IoSys.arm]
      split <;> rfl
  | added ok mgr hpc hadd => exact h.added hpc hadd
  | refused ok mgr rt hpc hadd hrt =>
      have hmoves : ReflTransGen (IOManager.Move fun _ => True) s.mgr mgr :=
        IOManager.addEvent_moves trivial hadd
      have hnew : ∀ r, Registers a (es ++ [(s, .add ok)]) r → Registers a es r := by
        intro r hr
        rcases registers_snoc hr with hr | ⟨ok', mgr', hact, hadd', -⟩
        · exact hr
        · obtain rfl := IoAct.add.inj hact
          rw [hadd] at hadd'
          exact absurd (Prod.mk.inj (Except.ok.inj hadd')).2 hrt
      refine ⟨IOManager.numbered_moves h.numbered hmoves, fun r hr => ?_, fun r hr => ?_⟩
      · exact IOManager.own_moves (h.own r (hnew r hr)) hmoves
      · rcases h.handed r (hnew r hr) with hh | ⟨hw, -⟩
        · exact .inl (IOManager.handed_moves hh hmoves)
        · rcases hw with hw | hw <;> exact absurd (hpc.symm.trans hw) (by simp)
  | yield hpc =>
      refine h.moves (by simp) .refl fun r hw => ?_
      exact .inr ⟨.inr rfl, hw.2⟩
  | resume hpc hhanded =>
      refine h.moves (by simp) .refl fun r hw => .inl ?_
      rw [IoSys.handed, hw.2] at hhanded
      exact hhanded
  | disarm pc' hafter =>
      obtain ⟨timers, heq, -⟩ := cancelTimer_eq s
      rw [heq]
      refine h.goto (by simp) rfl ?_
      rcases hafter with ⟨hpc, -⟩ | ⟨hpc, -⟩ | ⟨hpc, -⟩ <;> simp [hpc]
  | test pc' hpc hafter => exact h.goto (by simp) rfl (by simp [hpc])
  | getsockopt r error pc' hpc hafter => exact h.goto (by simp) rfl (by simp [hpc])
  | callback ht hcb => exact h.moves (by cases hcb <;> simp) .refl fun r hw => .inr hw
  | set i ht => exact h.moves (by simp) .refl fun r hw => .inr hw
  | cancelEvent i ok b mgr ht hrun =>
      exact h.moves (by simp) (IOManager.cancelEvent_moves hrun) fun r hw => .inr hw
  | foreign kernel opened fds mgr reports others hforeign hmoves =>
      refine h.moves ?_ hmoves fun r hw => .inr hw
      rintro ok rfl
      exact absurd hforeign Bool.false_ne_true

/-- A call that neither waits nor is about to has no registration left. -/
theorem RegsOk.not_waiting (h : RegsOk a es s) (hpc : s.pc ≠ .yield ∧ s.pc ≠ .parked) {r : Nat}
    (hr : Registers a es r) (p : FdContextPtr) (event : Event) :
    s.mgr.waiting p event ≠ some r := by
  rcases h.handed r hr with hh | ⟨hw, -⟩
  · exact (h.own r hr).not_waiting hh p event
  · exact absurd hw (not_or.mpr hpc)

/-! ## The results -/

/-- While the call runs it has only had results after which it calls again; when it
has returned, it was one of the three ways. -/
structure ResultsOk (a : WaitArgs S F) (es : History S F C T) (s : IoSys S F C T) : Prop where
  waits : s.pc ≠ .plain ∧ s.pc ≠ .getsockopt
  again : s.pc.running = true → ∀ r ∈ results es, Again r
  refused : s.pc = .refused → AddFailed a es
  ret : ∀ n e, s.pc = .ret n e → Outcome a es n e

theorem resultsOk_init (a : WaitArgs S F) (kernel : Kernel) (fds : FdManager)
    (mgr : IOManager S F C) : ResultsOk a [] (init kernel fds mgr : IoSys S F C T) where
  waits := by simp [init]
  again := fun _ r hr => absurd hr List.not_mem_nil
  refused := fun h => absurd h (by simp [init])
  ret := fun n e h => absurd h (by simp [init])

/-- A step that is not the call's. -/
theorem ResultsOk.stay (h : ResultsOk a es s) (hact : resultOf (s, act) = none)
    (hpc : s'.pc = s.pc) : ResultsOk a (es ++ [(s, act)]) s' where
  waits := by rw [hpc]; exact h.waits
  again := fun hrun r hr => by
    rw [hpc] at hrun
    rw [results_snoc, hact] at hr
    exact h.again hrun r (by simpa using hr)
  refused := fun hr => (h.refused (hpc ▸ hr)).snoc _
  ret := fun n e he => (h.ret n e (hpc ▸ he)).snoc hact

/-- The call goes on. -/
theorem ResultsOk.goto (h : ResultsOk a es s) (hact : resultOf (s, act) = none)
    (hrun : s.pc.running = true) (hpc : s'.pc.running = true)
    (hwaits : s'.pc ≠ .plain ∧ s'.pc ≠ .getsockopt) (hrefused : s'.pc ≠ .refused) :
    ResultsOk a (es ++ [(s, act)]) s' where
  waits := hwaits
  again := fun _ r hr => by
    rw [results_snoc, hact] at hr
    exact h.again hrun r (by simpa using hr)
  refused := fun hr => absurd hr hrefused
  ret := fun n e he => by
    rw [he] at hpc
    cases hpc

/-- The call returns without another result. -/
theorem ResultsOk.returns (h : ResultsOk a es s) (hact : resultOf (s, act) = none)
    (hrun : s.pc.running = true) {n : Int} {e : Option Errno} (hpc : s'.pc = .ret n e)
    (hout : (∀ r ∈ results (es ++ [(s, act)]), Again r) → Outcome a (es ++ [(s, act)]) n e) :
    ResultsOk a (es ++ [(s, act)]) s' := by
  have hall : ∀ r ∈ results (es ++ [(s, act)]), Again r := by
    intro r hr
    rw [results_snoc, hact] at hr
    exact h.again hrun r (by simpa using hr)
  refine ⟨by simp [hpc], fun hr => ?_, fun hr => ?_, fun n' e' he => ?_⟩
  · rw [hpc] at hr
    cases hr
  · rw [hpc] at hr
    cases hr
  · obtain ⟨rfl, rfl⟩ := IoPc.ret.inj (hpc.symm.trans he)
    exact hout hall

/-- The system call returns. -/
theorem ResultsOk.call (h : ResultsOk a es s) (hkind : a.kind = .do_io) (hpc : s.pc = .call)
    (r : SysResult) : ResultsOk a (es ++ [(s, .call r)]) (s.callResult a r) := by
  have hsnoc : results (es ++ [(s, .call r)]) = results es ++ [r] := results_snoc es _
  have hold : ∀ r' ∈ results es, Again r' := h.again (by rw [hpc]; rfl)
  have hagain : Again r → ∀ r' ∈ results (es ++ [(s, .call r)]), Again r' := by
    intro hr r' hr'
    rw [hsnoc] at hr'
    rcases List.mem_append.mp hr' with hr' | hr'
    · exact hold r' hr'
    · exact List.mem_singleton.mp hr' ▸ hr
  simp only [callResult, hkind]
  by_cases hintr : r = ⟨-1, .EINTR⟩
  · rw [if_pos hintr]
    exact
      { waits := h.waits
        again := fun _ => hagain (.inl hintr)
        refused := fun hr => absurd (hpc.symm.trans hr) (by simp)
        ret := fun n e he => absurd (hpc.symm.trans he) (by simp) }
  rw [if_neg hintr]
  by_cases hbusy : r = ⟨-1, .EAGAIN⟩
  · rw [if_pos hbusy]
    exact
      { waits := by simp
        again := fun _ => hagain (.inr hbusy)
        refused := fun hr => absurd hr (by simp)
        ret := fun n e he => absurd he (by simp) }
  · rw [if_neg hbusy]
    refine ⟨by simp, fun hr => absurd hr Bool.false_ne_true, fun hr => absurd hr (by simp), ?_⟩
    intro n e he
    obtain ⟨rfl, rfl⟩ := IoPc.ret.inj he
    exact .result (results es) r hsnoc hold (not_or.mpr ⟨hintr, hbusy⟩)

theorem ResultsOk.step (h : ResultsOk a es s) (ht : TimersOk es s) (hkind : a.kind = .do_io)
    (hblock : s.entersBlocking a act) (hdoes : Does a s act s') :
    ResultsOk a (es ++ [(s, act)]) s' := by
  cases hdoes with
  | enter hpc =>
      obtain ⟨hhook, ctx, hfind, hopen, hsock, huser⟩ := hblock
      have hgo : (s.enter a).pc = .call := by
        simp [IoSys.enter, hhook, hfind, hopen, hsock, huser]
      exact h.goto rfl (by rw [hpc]; rfl) (by rw [hgo]; rfl) (by simp [hgo]) (by simp [hgo])
  | plain r hpc => exact absurd hpc h.waits.1
  | call r hpc => exact h.call hkind hpc r
  | arm hpc =>
      have hgo : s.arm.pc = .add := by
        rw [IoSys.arm]
        split <;> rfl
      exact h.goto rfl (by rw [hpc]; rfl) (by rw [hgo]; rfl) (by simp [hgo]) (by simp [hgo])
  | added ok mgr hpc hadd => exact h.goto rfl (by rw [hpc]; rfl) rfl (by simp) (by simp)
  | refused ok mgr rt hpc hadd hrt =>
      have hall : s.pc.running = true := by rw [hpc]; rfl
      refine ⟨by simp, fun _ r hr => ?_, fun _ => ?_, fun n e he => absurd he (by simp)⟩
      · rw [results_snoc] at hr
        exact h.again hall r (by simpa [resultOf] using hr)
      · exact ⟨s, ok, mgr, rt, mem_last _, hadd, hrt⟩
  | yield hpc => exact h.goto rfl (by rw [hpc]; rfl) rfl (by simp) (by simp)
  | resume hpc hhanded => exact h.goto rfl (by rw [hpc]; rfl) rfl (by simp) (by simp)
  | disarm pc' hafter =>
      rcases hafter with ⟨hpc, rfl⟩ | ⟨hpc, -, rfl⟩ | ⟨-, hother, -⟩
      · exact h.goto rfl (by rw [hpc]; rfl) rfl (by simp) (by simp)
      · exact h.returns rfl (by rw [hpc]; rfl) rfl fun hall =>
          .addFailed hall ((h.refused hpc).snoc _)
      · exact absurd (hkind.symm.trans hother) (by decide)
  | test pc' hpc hafter =>
      rcases hafter with ⟨e, hcan, rfl⟩ | ⟨-, -, rfl⟩ | ⟨-, hother, -⟩
      · obtain ⟨rfl, hfired⟩ := ht.cancelled e hcan
        exact h.returns rfl (by rw [hpc]; rfl) rfl fun hall => .timedOut hall (hfired.snoc _)
      · exact h.goto rfl (by rw [hpc]; rfl) rfl (by simp) (by simp)
      · exact absurd (hkind.symm.trans hother) (by decide)
  | getsockopt r error pc' hpc hafter => exact absurd hpc h.waits.2
  | callback ht hcb => exact h.stay (by cases hcb <;> rfl) rfl
  | set i ht => exact h.stay rfl rfl
  | cancelEvent i ok b mgr ht hrun => exact h.stay rfl rfl
  | @foreign act kernel opened fds mgr reports others hforeign hmoves =>
      refine h.stay ?_ rfl
      cases act with
      | call r => exact absurd hforeign Bool.false_ne_true
      | _ => rfl

/-! ## The call -/

instance (ctx : FdCtx) : Decidable (BlockingSocket ctx) :=
  inferInstanceAs (Decidable (ctx.isClosed = false ∧ ctx.isSocket = true ∧ _ = false))

instance (a : WaitArgs S F) (s : IoSys S F C T) : Decidable (s.Blocking a) :=
  decidable_of_iff
    (a.hookEnable = true ∧ (s.fds.find a.fd).any fun ctx => decide (BlockingSocket ctx)) <| by
      rw [Blocking, Option.any_eq_true]
      simp only [decide_eq_true_eq]

instance (a : WaitArgs S F) (s : IoSys S F C T) (act : IoAct S F C T) :
    Decidable (s.entersBlocking a act) :=
  match act with
  | .enter => inferInstanceAs (Decidable (s.Blocking a))
  | .call _ | .arm | .add _ | .yield | .resume | .disarm | .test | .getsockopt .. | .expire _
  | .lock _ | .check _ | .set _ | .cancelEvent .. | .event .. | .wait .. | .dispatch ..
  | .resize _ | .close .. | .cancelAll .. | .del _ | .close_f _ | .socket .. | .get _ =>
      .isTrue trivial

/-- `errno` after the call is not what it would call again for; `left` is `errno`
after an `addEvent` that fails. -/
theorem Outcome.settled {n : Int} {e : Option Errno} (h : Outcome a es n e) {left : Errno}
    (hleft : left ≠ .EAGAIN ∧ left ≠ .EINTR) (hn : n = -1) :
    e.getD left ≠ .EAGAIN ∧ e.getD left ≠ .EINTR := by
  cases h with
  | result rs r hres hall hnot =>
      obtain ⟨m, errno⟩ := r
      obtain rfl : m = -1 := hn
      refine ⟨?_, ?_⟩
      · rintro rfl
        exact hnot (.inr rfl)
      · rintro rfl
        exact hnot (.inl rfl)
  | timedOut hall hfired => exact ⟨by simp, by simp⟩
  | addFailed hall hadd => exact hleft

/-- What holds of every history of the call. -/
theorem do_io_invariants [DecidableEq T] {kernel : Kernel} {fds : FdManager}
    (hkind : a.kind = .do_io)
    (h : Path (proceed (IoSys.step a)) (entersBlocking a)
      (init kernel fds .create : IoSys S F C T) es s) :
    TimersOk es s ∧ RegsOk a es s ∧ ResultsOk a es s := by
  refine h.invariant (I := fun es s => TimersOk es s ∧ RegsOk a es s ∧ ResultsOk a es s)
    ⟨timersOk_init kernel fds .create, regsOk_init a kernel fds,
      resultsOk_init a kernel fds .create⟩ ?_
  rintro es s act s' ⟨htimers, hregs, hresults⟩ hblock hstep
  have hdoes : Does a s act s' := step_does (proceed_eq_some.mp hstep)
  exact ⟨htimers.step hdoes, hregs.step hdoes, hresults.step htimers hkind hblock hdoes⟩

/-- **What `do_io` returns.**  It is the first result that is neither `-1/EINTR` nor
`-1/EAGAIN`, or the call is timed out by a timer of its own, or its `addEvent` fails; it
never returns `EAGAIN` or `EINTR`, as `errno` is neither after a failed `epoll_ctl`; and
when it has returned, none of its timers is in the timer set and none of its
registrations in a mask. -/
theorem do_io_settles [DecidableEq T] {kernel : Kernel} {fds : FdManager}
    (hkind : a.kind = .do_io) {left : Errno} (hleft : left ≠ .EAGAIN ∧ left ≠ .EINTR)
    (h : Path (proceed (IoSys.step a)) (entersBlocking a)
      (init kernel fds .create : IoSys S F C T) es s)
    {n : Int} {e : Option Errno} (hret : s.pc = .ret n e) :
    Outcome a es n e ∧
      (n = -1 → e.getD left ≠ .EAGAIN ∧ e.getD left ≠ .EINTR) ∧
      (∀ t ∈ s.timers, t ≠ .armed) ∧
      ∀ r, Registers a es r → ∀ p event, s.mgr.waiting p event ≠ some r := by
  obtain ⟨htimers, hregs, hresults⟩ := do_io_invariants hkind h
  have hout : Outcome a es n e := hresults.ret n e hret
  refine ⟨hout, fun hn => hout.settled hleft hn, fun t ht => ?_, fun r hr p event => ?_⟩
  · obtain ⟨i, hi⟩ := List.mem_iff_getElem?.mp ht
    rintro rfl
    exact timer_not_armed htimers (by rw [hret]; rfl) i hi
  · exact hregs.not_waiting (by simp [hret]) hr p event

/-- The call is interrupted, waits, and is timed out: the callback sets the flag and
cancels the event. -/
theorem do_io_settles_timedOut :
    ∃ es s, Path (proceed (IoSys.step recv5)) (entersBlocking recv5) socket5 es s ∧
      s.pc = .ret (-1) (some .ETIMEDOUT) ∧ Outcome recv5 es (-1) (some .ETIMEDOUT) ∧
      ∀ t ∈ s.timers, t ≠ .armed := by
  have h : (run (guarded (proceed (IoSys.step recv5)) (entersBlocking recv5)) socket5
      (.enter :: .call ⟨-1, .EINTR⟩ :: timedOut.tail ++
        [.cancelEvent 0 true, .resume, .disarm, .test])).any
      (fun s => decide (s.pc = .ret (-1) (some .ETIMEDOUT))) = true := by decide +kernel
  obtain ⟨s, hs, hpc⟩ := Option.any_eq_true _ _ |>.mp h
  obtain ⟨es, hes, -⟩ := run_path _ hs
  -- `epoll_ctl` leaves `EBADF`, say
  have hleft : Errno.EBADF ≠ .EAGAIN ∧ Errno.EBADF ≠ .EINTR := by decide
  obtain ⟨hout, -, htimers, -⟩ := do_io_settles rfl hleft hes (of_decide_eq_true hpc)
  exact ⟨es, s, hes, of_decide_eq_true hpc, hout, htimers⟩

end IoSys

end CoLib
