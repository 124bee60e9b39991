/-
# `CoLib.Hook.NeverReady` — a call that does not become ready

The system call of `do_io` is interrupted or would block whenever it is made, and
`addEvent` is accepted.  Each round then arms a timer of the timeout that the hooks'
record of the descriptor has, unless there is none.

**Proved here.**  Such a call returns only -1 with `ETIMEDOUT`, after a timer of one of
its rounds has expired (`neverReady_waits`).  And if others leave its registration alone
and the callbacks are prompt, it does return: the call and the callbacks take at most 13
steps, not counting interrupted system calls, and until it has returned one of these
steps can be taken (`neverReady_ends`).
-/
import CoLib.Hook.DoIoResult
import CoLib.Hook.Woken
import CoLib.Lib.Measure
import CoLib.Lib.Tally

namespace CoLib

open Lib Relation

variable {S F C T : Type}

/-- A step of the call or of a callback, except for a system call that is interrupted. -/
def IoAct.counts : IoAct S F C T → Bool
  | .call r => r ≠ ⟨-1, .EINTR⟩
  | act => !act.foreign

/-- The steps that the callback of a timer has left, with its expiry. -/
def CondTimer.left : CondTimer → Nat
  | .armed => 5
  | .taken => 4
  | .locked => 3
  | .passed => 2
  | .owing => 1
  | .over | .cancelled => 0

/-- The steps that a call has left which is timed out in its first round, with those of the
callback while the timer is not armed. -/
def IoPc.left : IoPc → Nat
  | .entry => 13
  | .call => 12
  | .arm => 11
  | .add => 5
  | .yield => 4
  | .parked => 3
  | .resumed => 2
  | .test => 1
  | .plain | .refused | .getsockopt | .ret _ _ => 0

namespace IoSys

/-- The delay of the timer that a round adds, if it adds one. -/
def delay (s : IoSys S F C T) : Option Nat :=
  if s.timeout = wordSize - 1 then none else some s.timeout

/-- The call begins with the record `ctx`, and does not become ready: the system call is
interrupted or would block, and `addEvent` is accepted. -/
def neverReady (a : WaitArgs S F) (ctx : FdCtx) (s : IoSys S F C T) : IoAct S F C T → Prop
  | .enter => s.fds.find a.fd = some ctx
  | .call r => Again r
  | .add ok => (s.addEvent a ok).toOption.all fun (_, rt) => rt = 0
  | _ => True

variable {a : WaitArgs S F} {s s' : IoSys S F C T} {es : History S F C T}
  {act : IoAct S F C T} {ctx : FdCtx}

/-- The timeout of a call that has begun is `t`, and the timers it has are those its
rounds have added. -/
structure WaitsOk (t : Nat) (es : History S F C T) (s : IoSys S F C T) : Prop where
  timeout : s.pc = .entry ∨ s.timeout = t
  arms : ∀ u, (u, .arm) ∈ es → u.timeout = t
  added : ∀ i < s.timers.length, ∃ (j : Nat) (u : IoSys S F C T), es[j]? = some (u, .arm) ∧
    u.timers.length = i ∧ u.delay.isSome = true
  expired : ∀ u i, (u, .expire i) ∈ es → i < s.timers.length

theorem waitsOk_init (t : Nat) (kernel : Kernel) (fds : FdManager) (mgr : IOManager S F C) :
    WaitsOk t [] (init kernel fds mgr : IoSys S F C T) where
  timeout := .inl rfl
  arms := fun _ h => absurd h List.not_mem_nil
  added := fun i h => absurd h (Nat.not_lt_zero i)
  expired := fun _ _ h => absurd h List.not_mem_nil

/-- Only `enter` changes the timeout. -/
theorem does_timeout (hdoes : Does a s act s') (hact : act ≠ .enter) :
    s'.timeout = s.timeout ∧ (s.pc = .entry → s'.pc = .entry) := by
  cases hdoes with
  | enter hpc => exact absurd rfl hact
  | plain r hpc => exact ⟨rfl, by simp [hpc]⟩
  | call r hpc =>
      obtain ⟨pc, heq, -⟩ := callResult_eq a s r
      rw [heq]
      exact ⟨rfl, by simp [hpc]⟩
  | arm hpc =>
      rw [IoSys.arm]
      split <;> exact ⟨rfl, by simp [hpc]⟩
  | added ok mgr hpc hadd => exact ⟨rfl, by simp [hpc]⟩
  | refused ok mgr rt hpc hadd hrt => exact ⟨rfl, by simp [hpc]⟩
  | yield hpc => exact ⟨rfl, by simp [hpc]⟩
  | resume hpc hhanded => exact ⟨rfl, by simp [hpc]⟩
  | disarm pc' hafter =>
      obtain ⟨timers, heq, -⟩ := cancelTimer_eq s
      rw [heq]
      refine ⟨rfl, ?_⟩
      rcases hafter with ⟨hpc, -⟩ | ⟨hpc, -⟩ | ⟨hpc, -⟩ <;> simp [hpc]
  | test pc' hpc hafter => exact ⟨rfl, by simp [hpc]⟩
  | getsockopt r error pc' hpc hafter => exact ⟨rfl, by simp [hpc]⟩
  | callback ht hcb => exact ⟨rfl, id⟩
  | set i ht => exact ⟨rfl, id⟩
  | cancelEvent i ok b mgr ht hrun => exact ⟨rfl, id⟩
  | foreign kernel opened fds mgr reports others hforeign hmoves => exact ⟨rfl, id⟩

/-- Only `arm` adds a timer. -/
theorem does_timers (hdoes : Does a s act s') :
    act = .arm ∧ s'.timers.length = s.timers.length + s.delay.isSome.toNat ∨
      act ≠ .arm ∧ s'.timers.length = s.timers.length := by
  cases hdoes with
  | arm hpc =>
      refine .inl ⟨rfl, ?_⟩
      rw [IoSys.arm, delay]
      split
      · rfl
      · exact List.length_append
  | enter hpc =>
      obtain ⟨pc, timeout, enteredOn, heq, -⟩ := enter_eq a s
      rw [heq]
      exact .inr ⟨by simp, rfl⟩
  | call r hpc =>
      obtain ⟨pc, heq, -⟩ := callResult_eq a s r
      rw [heq]
      exact .inr ⟨by simp, rfl⟩
  | disarm pc' hafter =>
      refine .inr ⟨by simp, ?_⟩
      change s.cancelTimer.timers.length = s.timers.length
      rw [cancelTimer]
      split
      · rfl
      · exact List.length_modify _ _ _
  | plain r hpc => exact .inr ⟨by simp, rfl⟩
  | added ok mgr hpc hadd => exact .inr ⟨by simp, rfl⟩
  | refused ok mgr rt hpc hadd hrt => exact .inr ⟨by simp, rfl⟩
  | yield hpc => exact .inr ⟨by simp, rfl⟩
  | resume hpc hhanded => exact .inr ⟨by simp, rfl⟩
  | test pc' hpc hafter => exact .inr ⟨by simp, rfl⟩
  | getsockopt r error pc' hpc hafter => exact .inr ⟨by simp, rfl⟩
  | callback ht hcb => exact .inr ⟨by cases hcb <;> simp, List.length_set⟩
  | set i ht => exact .inr ⟨by simp, List.length_set⟩
  | cancelEvent i ok b mgr ht hrun => exact .inr ⟨by simp, List.length_set⟩
  | foreign kernel opened fds mgr reports others hforeign hmoves =>
      refine .inr ⟨?_, rfl⟩
      rintro rfl
      exact absurd hforeign Bool.false_ne_true

/-- The timer that expires has been added. -/
theorem does_expire {i : Nat} (hdoes : Does a s (.expire i) s') : i < s.timers.length := by
  cases hdoes with
  | callback ht hcb =>
      cases hcb with
      | expire => exact (List.getElem?_eq_some_iff.mp ht).1
  | foreign _ _ _ _ _ _ hforeign => exact absurd hforeign Bool.false_ne_true

theorem does_arm (hdoes : Does a s .arm s') : s.pc = .arm := by
  cases hdoes with
  | arm hpc => exact hpc
  | callback ht hcb => cases hcb
  | foreign _ _ _ _ _ _ hforeign => exact absurd hforeign Bool.false_ne_true

theorem WaitsOk.step {t : Nat} (h : WaitsOk t es s)
    (henter : act = .enter → s'.timeout = t) (hdoes : Does a s act s') :
    WaitsOk t (es ++ [(s, act)]) s' := by
  have hlength := does_timers hdoes
  have hle : s.timers.length ≤ s'.timers.length := by
    rcases hlength with ⟨-, hlen⟩ | ⟨-, hlen⟩ <;> omega
  refine ⟨?_, fun u hu => ?_, fun i hi => ?_, fun u i hu => ?_⟩
  · by_cases hact : act = .enter
    · exact .inr (henter hact)
    · obtain ⟨hsame, hentry⟩ := does_timeout hdoes hact
      rw [hsame]
      exact h.timeout.imp_left hentry
  · rcases List.mem_append.mp hu with hu | hu
    · exact h.arms u hu
    · obtain ⟨rfl, rfl⟩ := Prod.mk.inj (List.mem_singleton.mp hu)
      exact h.timeout.resolve_left (by simp [does_arm hdoes])
  · by_cases hi' : i < s.timers.length
    · obtain ⟨j, u, hj, hu⟩ := h.added i hi'
      have hlt := (List.getElem?_eq_some_iff.mp hj).1
      exact ⟨j, u, (List.getElem?_append_left hlt).trans hj, hu⟩
    · rcases hlength with ⟨rfl, hlen⟩ | ⟨-, hlen⟩
      · cases hdelay : s.delay.isSome with
        | false =>
            rw [hdelay, Bool.toNat_false] at hlen
            omega
        | true =>
            rw [hdelay, Bool.toNat_true] at hlen
            exact ⟨es.length, s, List.getElem?_concat_length, by omega, hdelay⟩
      · omega
  · rcases List.mem_append.mp hu with hu | hu
    · exact (h.expired u i hu).trans_le hle
    · obtain ⟨rfl, rfl⟩ := Prod.mk.inj (List.mem_singleton.mp hu)
      exact (does_expire hdoes).trans_le hle

theorem does_enter (hdoes : Does a s .enter s') : s' = s.enter a := by
  cases hdoes with
  | enter hpc => rfl
  | callback ht hcb => cases hcb
  | foreign _ _ _ _ _ _ hforeign => exact absurd hforeign Bool.false_ne_true

theorem enter_blocking (hkind : a.kind = .do_io) (hhook : a.hookEnable = true)
    (hctx : BlockingSocket ctx) (hfind : s.fds.find a.fd = some ctx) :
    s.enter a = { s with
      pc := .call
      enteredOn := some s.opened
      timeout := ctx.getTimeout a.timeoutSo } := by
  obtain ⟨hopen, hsock, huser⟩ := hctx
  simp [IoSys.enter, hkind, hhook, hfind, hopen, hsock, huser]

theorem mem_results {r : SysResult} (h : r ∈ results es) : ∃ u, (u, .call r) ∈ es := by
  obtain ⟨⟨u, act⟩, hmem, hact⟩ := List.mem_filterMap.mp h
  cases act with
  | call r' =>
      obtain rfl := Option.some.inj hact
      exact ⟨u, hmem⟩
  | _ => cases hact

/-- A call that does not become ready has the timeout of its record in every round, and
returns only after a timer of one of its rounds has expired. -/
theorem neverReady_waits [DecidableEq T] {kernel : Kernel} {fds : FdManager}
    (hkind : a.kind = .do_io) (hhook : a.hookEnable = true) (hctx : BlockingSocket ctx)
    (h : Path (proceed (IoSys.step a)) (neverReady a ctx)
      (init kernel fds .create : IoSys S F C T) es s) :
    (∀ u, (u, .arm) ∈ es → u.timeout = ctx.getTimeout a.timeoutSo) ∧
      ∀ n e, s.pc = .ret n e → n = -1 ∧ e = some .ETIMEDOUT ∧
        ∃ (j k : Nat) (u u' : IoSys S F C T), es[j]? = some (u, .arm) ∧ u.delay.isSome = true ∧
          es[k]? = some (u', .expire u.timers.length) := by
  have hwaits : WaitsOk (ctx.getTimeout a.timeoutSo) es s := by
    refine h.invariant (waitsOk_init _ kernel fds .create) fun es s act s' hI hready hstep => ?_
    have hdoes : Does a s act s' := step_does (proceed_eq_some.mp hstep)
    refine hI.step ?_ hdoes
    rintro rfl
    rw [does_enter hdoes, enter_blocking hkind hhook hctx hready]
  refine ⟨hwaits.arms, fun n e hret => ?_⟩
  obtain ⟨-, -, hresults⟩ := do_io_invariants hkind <| h.mono
    fun s act hready => show s.entersBlocking a act from by
      cases act with
      | enter => exact ⟨hhook, ctx, hready, hctx⟩
      | _ => trivial
  cases hresults.ret n e hret with
  | result rs r hres hall hnot =>
      have hmem : r ∈ results es := hres ▸ List.mem_append_right _ (List.mem_singleton_self r)
      obtain ⟨u, hu⟩ := mem_results hmem
      exact absurd (h.guard_of_mem hu) hnot
  | timedOut hall hfired =>
      obtain ⟨i, ⟨u', hu'⟩, -⟩ := hfired
      obtain ⟨j, u, hj, hlen, hdelay⟩ := hwaits.added i (hwaits.expired u' i hu')
      obtain ⟨k, hk⟩ := List.mem_iff_getElem?.mp hu'
      exact ⟨rfl, rfl, j, k, u, u', hj, hdelay, hlen ▸ hk⟩
  | addFailed hall hadd =>
      obtain ⟨u, ok, mgr, rt, hu, hadd, hrt⟩ := hadd
      have hzero : (u.addEvent a ok).toOption.all (fun (_, rt) => rt = 0) = true :=
        h.guard_of_mem hu
      rw [hadd] at hzero
      exact absurd (of_decide_eq_true hzero) hrt

/-! ## The end of the wait -/

/-- The condition on a step: the call does not become ready, its callbacks are prompt, and
others leave its registration alone. -/
def untouched (a : WaitArgs S F) (ctx : FdCtx) (s : IoSys S F C T) (act : IoAct S F C T) : Prop :=
  s.neverReady a ctx act ∧ s.prompt a act ∧ s.wakes a act = false ∧ s.drops act = false

/-- The steps that are left. -/
def left (s : IoSys S F C T) : Nat :=
  s.pc.left + tally CondTimer.left s.timers

/-- The call waits for its timer only: its fiber is not lost, and is handed over only when
the call is timed out. -/
structure Ends (a : WaitArgs S F) (s : IoSys S F C T) : Prop where
  woken : ∀ r, s.reg = some r → s.mgr.Handed r → s.cancelled ≠ none
  waits : s.pc = .yield ∨ s.pc = .parked → ∃ r, s.reg = some r ∧ s.mgr.Kept a.ctx a.event r
  timedOut : s.pc = .resumed ∨ s.pc = .test → s.cancelled ≠ none
  place : s.pc ≠ .plain ∧ s.pc ≠ .refused ∧ s.pc ≠ .getsockopt

theorem ends_init (a : WaitArgs S F) (kernel : Kernel) (fds : FdManager)
    (mgr : IOManager S F C) : (init kernel fds mgr : IoSys S F C T).Ends a where
  woken := fun r h => absurd h (by simp [init])
  waits := fun h => absurd h (by simp [init])
  timedOut := fun h => absurd h (by simp [init])
  place := by simp [init]

/-- The call goes on to a place where it neither waits nor has waited. -/
theorem Ends.goto (h : s.Ends a) (hmgr : s'.mgr = s.mgr) (hreg : s'.reg = s.reg)
    (hcan : s'.cancelled = s.cancelled) (hwaits : s'.pc ≠ .yield ∧ s'.pc ≠ .parked)
    (htimedOut : s'.pc = .resumed ∨ s'.pc = .test → s.cancelled ≠ none)
    (hplace : s'.pc ≠ .plain ∧ s'.pc ≠ .refused ∧ s'.pc ≠ .getsockopt) : s'.Ends a where
  woken := by
    rw [hmgr, hreg, hcan]
    exact h.woken
  waits := fun hw => absurd hw (not_or.mpr hwaits)
  timedOut := by
    rw [hcan]
    exact htimedOut
  place := hplace

/-- Every untouched step. -/
theorem Ends.step [DecidableEq T] (h : s.Ends a) (htimely : s.Timely a)
    (hnumbered : s.mgr.Numbered) (hown : ∀ r, s.reg = some r → s.mgr.Own a.ctx a.event r)
    (hkind : a.kind = .do_io) (hhook : a.hookEnable = true) (hctx : BlockingSocket ctx)
    (huntouched : s.untouched a ctx act) (hstep : s.step a act = some (.ok s')) :
    s'.Ends a := by
  obtain ⟨hready, -, hwakes, hdrops⟩ := huntouched
  have hdoes : Does a s act s' := step_does hstep
  cases hdoes with
  | enter hpc =>
      rw [enter_blocking hkind hhook hctx hready]
      exact h.goto rfl rfl rfl (by simp) (by simp) (by simp)
  | plain r hpc => exact absurd hpc h.place.1
  | call r hpc =>
      simp only [callResult, hkind]
      rcases hready with rfl | rfl
      · exact h
      · exact h.goto rfl rfl rfl (by simp) (by simp) (by simp)
  | arm hpc =>
      rw [IoSys.arm]
      split <;> exact h.goto rfl rfl rfl (by simp) (by simp) (by simp)
  | added ok mgr hpc hadd =>
      refine ⟨fun r hr hh => ?_, fun _ => ⟨_, rfl, .inl (IOManager.addEvent_awaits rfl hadd)⟩,
        fun hpc => absurd hpc (by simp), by simp⟩
      obtain rfl := Option.some.inj hr
      exact absurd hh (IOManager.addEvent_own hnumbered hadd).2
  | refused ok mgr rt hpc hadd hrt =>
      have hzero : (s.addEvent a ok).toOption.all (fun (_, rt) => rt = 0) = true := hready
      rw [hadd] at hzero
      exact absurd (of_decide_eq_true hzero) hrt
  | yield hpc =>
      exact ⟨h.woken, fun _ => h.waits (.inl hpc), fun hpc => absurd hpc (by simp), by simp⟩
  | resume hpc hhanded =>
      obtain ⟨r, hr, hh⟩ := Option.any_eq_true _ _ |>.mp hhanded
      exact h.goto rfl rfl rfl (by simp) (fun _ => h.woken r hr hh) (by simp)
  | disarm pc' hafter =>
      obtain ⟨timers, heq, -⟩ := cancelTimer_eq s
      rw [heq]
      rcases hafter with ⟨hpc, rfl⟩ | ⟨hpc, -⟩ | ⟨hpc, -⟩
      · exact h.goto rfl rfl rfl (by simp) (fun _ => h.timedOut (.inl hpc)) (by simp)
      · exact absurd hpc h.place.2.1
      · exact absurd hpc h.place.2.1
  | test pc' hpc hafter =>
      rcases hafter with ⟨e, -, rfl⟩ | ⟨hcan, -⟩ | ⟨hcan, -⟩
      · exact h.goto rfl rfl rfl (by simp) (by simp) (by simp)
      · exact absurd hcan (h.timedOut (.inr hpc))
      · exact absurd hcan (h.timedOut (.inr hpc))
  | getsockopt r error pc' hpc => exact absurd hpc h.place.2.2
  | callback => exact ⟨h.woken, h.waits, h.timedOut, h.place⟩
  | set => exact ⟨fun _ _ _ => by simp, h.waits, fun _ => by simp, h.place⟩
  | cancelEvent i ok b mgr ht hrun =>
      have hcan : s.cancelled ≠ none := htimely.owing (List.mem_of_getElem? ht)
      refine ⟨fun _ _ _ => hcan, fun hw => ?_, fun _ => hcan, h.place⟩
      obtain ⟨r, hr, hk⟩ := h.waits hw
      exact ⟨r, hr, IOManager.cancelEvent_kept hrun hk⟩
  | foreign kernel opened fds mgr reports others hforeign =>
      refine ⟨fun r hr hh => ?_, fun hw => ?_, h.timedOut, h.place⟩
      · rcases (step_others hforeign hstep).hands (hown r hr) hr hh with hh | hyes
        · exact h.woken r hr hh
        · exact absurd (hyes.symm.trans hwakes) (by decide)
      · obtain ⟨r, hr, hk⟩ := h.waits hw
        exact ⟨r, hr, (step_others hforeign hstep).kept hdrops hr hk⟩

/-- Cancelling leaves no more to do. -/
theorem cancelTimer_left (s : IoSys S F C T) :
    tally CondTimer.left s.cancelTimer.timers ≤ tally CondTimer.left s.timers := by
  rw [cancelTimer]
  split
  · exact le_rfl
  · rename_i i _
    cases hi : s.timers[i]? with
    | none =>
        rw [List.modify_eq_self (List.getElem?_eq_none_iff.mp hi)]
    | some t =>
        have hset := tally_set (f := CondTimer.left) t.cancel hi
        have hle : t.cancel.left ≤ t.left := by cases t <;> decide
        rw [List.modify_eq_set_getElem?, hi]
        change tally CondTimer.left (s.timers.set i t.cancel) ≤ _
        omega

/-- The call goes on and leaves its timers alone. -/
theorem left_goto {pc pc' : IoPc} (hpc : s.pc = pc) (hpc' : s'.pc = pc')
    (htimers : s'.timers = s.timers) (hle : act.counts.toNat + pc'.left ≤ pc.left) :
    act.counts.toNat + s'.left ≤ s.left := by
  rw [left, left, hpc, hpc', htimers]
  omega

/-- A callback goes on from `t` to `t'`. -/
theorem left_setTimer {i : Nat} {t t' : CondTimer} (ht : s.timers[i]? = some t)
    (hpc : s'.pc = s.pc) (htimers : s'.timers = s.timers.set i t')
    (hle : act.counts.toNat + t'.left ≤ t.left) : act.counts.toNat + s'.left ≤ s.left := by
  have hset := tally_set (f := CondTimer.left) t' ht
  rw [left, left, hpc, htimers]
  omega

/-- Every step that counts leaves one less, and no other leaves more. -/
theorem Ends.left_step [DecidableEq T] (h : s.Ends a) (hkind : a.kind = .do_io)
    (hhook : a.hookEnable = true) (hctx : BlockingSocket ctx) (hready : s.neverReady a ctx act)
    (hdoes : Does a s act s') : act.counts.toNat + s'.left ≤ s.left := by
  cases hdoes with
  | enter hpc =>
      rw [enter_blocking hkind hhook hctx hready]
      exact left_goto hpc rfl rfl le_rfl
  | plain r hpc => exact absurd hpc h.place.1
  | call r hpc =>
      simp only [callResult, hkind]
      rcases hready with rfl | rfl
      · exact left_goto rfl rfl rfl (by simp [IoAct.counts])
      · exact left_goto hpc rfl rfl (by simp [IoAct.counts, IoPc.left])
  | arm hpc =>
      have hleft : s.left = 11 + tally CondTimer.left s.timers := by rw [left, hpc, IoPc.left]
      rw [IoSys.arm, hleft]
      split
      · change 1 + (5 + tally CondTimer.left s.timers) ≤ _
        omega
      · change 1 + (5 + tally CondTimer.left (s.timers ++ [.armed])) ≤ _
        rw [tally_append, tally_cons, tally_nil, CondTimer.left]
        omega
  | added ok mgr hpc hadd => exact left_goto hpc rfl rfl le_rfl
  | refused ok mgr rt hpc hadd hrt =>
      exact left_goto hpc rfl rfl (by simp [IoAct.counts, IoAct.foreign, IoPc.left])
  | yield hpc => exact left_goto hpc rfl rfl le_rfl
  | resume hpc => exact left_goto hpc rfl rfl le_rfl
  | disarm pc' hafter =>
      have hle := cancelTimer_left s
      rcases hafter with ⟨hpc, rfl⟩ | ⟨hpc, -⟩ | ⟨hpc, -⟩
      · have hleft : s.left = 2 + tally CondTimer.left s.timers := by rw [left, hpc, IoPc.left]
        change 1 + (1 + tally CondTimer.left s.cancelTimer.timers) ≤ s.left
        omega
      · exact absurd hpc h.place.2.1
      · exact absurd hpc h.place.2.1
  | test pc' hpc hafter =>
      rcases hafter with ⟨e, -, rfl⟩ | ⟨hcan, -⟩ | ⟨hcan, -⟩
      · exact left_goto hpc rfl rfl le_rfl
      · exact absurd hcan (h.timedOut (.inr hpc))
      · exact absurd hcan (h.timedOut (.inr hpc))
  | getsockopt r error pc' hpc => exact absurd hpc h.place.2.2
  | callback ht hcb =>
      refine left_setTimer ht rfl rfl ?_
      cases hcb with
      | expire => exact le_rfl
      | lock => split <;> simp [IoAct.counts, IoAct.foreign, CondTimer.left]
      | check => split <;> simp [IoAct.counts, IoAct.foreign, CondTimer.left]
  | set i ht => exact left_setTimer ht rfl rfl le_rfl
  | cancelEvent i ok b mgr ht hrun => exact left_setTimer ht rfl rfl le_rfl
  | foreign kernel opened fds mgr reports others hforeign =>
      have hno : act.counts = false := by
        cases act with
        | call r => exact absurd hforeign Bool.false_ne_true
        | _ => first | rfl | exact absurd hforeign Bool.false_ne_true
      exact left_goto rfl rfl rfl (by rw [hno, Bool.toNat_false, Nat.zero_add])

/-- A timer whose callback has not returned can go on. -/
theorem timer_enabled [DecidableEq T] {t : CondTimer} (ht : t ∈ s.timers)
    (hpending : t.pending = true) : ∃ act, act.counts = true ∧ (s.step a act).isSome = true := by
  obtain ⟨i, hi⟩ := List.mem_iff_getElem?.mp ht
  cases t with
  | armed => exact ⟨.expire i, rfl, by simp [IoSys.step, hi]⟩
  | taken => exact ⟨.lock i, rfl, by simp [IoSys.step, hi]⟩
  | locked => exact ⟨.check i, rfl, by simp [IoSys.step, hi]⟩
  | passed => exact ⟨.set i, rfl, by simp [IoSys.step, hi]⟩
  | owing => exact ⟨.cancelEvent i true, rfl, by simp [IoSys.step, hi]⟩
  | _ => exact absurd hpending Bool.false_ne_true

/-- Until the call has returned, it or a callback can go on. -/
theorem Ends.enabled [DecidableEq T] (h : s.Ends a) (htimely : s.Timely a)
    (hto : s.pc = .entry ∨ s.timeout ≠ wordSize - 1) :
    (∃ n e, s.pc = .ret n e) ∨ ∃ act, act.counts = true ∧ (s.step a act).isSome = true := by
  cases hpc : s.pc with
  | ret n e => exact .inl ⟨n, e, rfl⟩
  | entry => exact .inr ⟨.enter, rfl, by simp [IoSys.step, hpc]⟩
  | call => exact .inr ⟨.call ⟨-1, .EBADF⟩, by simp [IoAct.counts], by simp [IoSys.step, hpc]⟩
  | arm => exact .inr ⟨.arm, rfl, by simp [IoSys.step, hpc]⟩
  | add => exact .inr ⟨.add true, rfl, by simp [IoSys.step, hpc]⟩
  | yield => exact .inr ⟨.yield, rfl, by simp [IoSys.step, hpc]⟩
  | resumed => exact .inr ⟨.disarm, rfl, by simp [IoSys.step, hpc]⟩
  | test =>
      refine .inr ⟨.test, rfl, ?_⟩
      obtain ⟨e, he⟩ := Option.ne_none_iff_exists'.mp (h.timedOut (.inr hpc))
      simp [IoSys.step, hpc, he]
  | parked =>
      obtain ⟨r, hr, hw | hh⟩ := h.waits (.inr hpc)
      · -- the fiber waits, so a timer is pending
        have hwaits : s.Waits a := ⟨.inr hpc, r, hr, hw.waiting⟩
        obtain ⟨t, ht, hpending⟩ :=
          htimely.timed (.inr hwaits) (hto.resolve_left (by simp [hpc]))
        exact .inr (timer_enabled ht hpending)
      · have hhanded : s.handed = true := by
          rw [handed, hr, Option.any_some]
          exact hh
        exact .inr ⟨.resume, rfl, by simp [IoSys.step, hpc, hhanded]⟩
  | plain => exact absurd hpc h.place.1
  | refused => exact absurd hpc h.place.2.1
  | getsockopt => exact absurd hpc h.place.2.2

/-- What holds between two steps of a call that begins with the timeout `t`. -/
structure Ending (a : WaitArgs S F) (t : Nat) (s : IoSys S F C T) : Prop where
  timeout : s.pc = .entry ∨ s.timeout = t
  timely : s.Timely a
  numbered : s.mgr.Numbered
  own : ∀ r, s.reg = some r → s.mgr.Own a.ctx a.event r
  ends : s.Ends a

theorem ending_init (a : WaitArgs S F) (t : Nat) (kernel : Kernel) (fds : FdManager) :
    (init kernel fds .create : IoSys S F C T).Ending a t where
  timeout := .inl rfl
  timely := timely_init a kernel fds .create
  numbered := IOManager.numbered_create
  own := fun r hr => absurd hr (by simp [init])
  ends := ends_init a kernel fds .create

theorem Ending.step [DecidableEq T] (h : s.Ending a (ctx.getTimeout a.timeoutSo))
    (hkind : a.kind = .do_io) (hhook : a.hookEnable = true) (hctx : BlockingSocket ctx)
    (huntouched : s.untouched a ctx act) (hstep : s.step a act = some (.ok s')) :
    s'.Ending a (ctx.getTimeout a.timeoutSo) := by
  have hdoes : Does a s act s' := step_does hstep
  have hmoves := (does_frame hdoes).moves
  refine ⟨?_, h.timely.step huntouched.2.1 hdoes, IOManager.numbered_moves h.numbered hmoves, ?_,
    h.ends.step h.timely h.numbered h.own hkind hhook hctx huntouched hstep⟩
  · by_cases hact : act = .enter
    · subst hact
      rw [does_enter hdoes, enter_blocking hkind hhook hctx huntouched.1]
      exact .inr rfl
    · obtain ⟨hsame, hentry⟩ := does_timeout hdoes hact
      rw [hsame]
      exact h.timeout.imp_left hentry
  · intro r hr
    rcases (does_frame hdoes).reg with hreg | ⟨ok, hadd, -, hreg⟩
    · exact IOManager.own_moves (h.own r (hreg ▸ hr)) hmoves
    · obtain rfl := Option.some.inj (hreg.symm.trans hr)
      exact (IOManager.addEvent_own h.numbered hadd).1

/-- **A call that does not become ready returns.**  If others leave its registration alone
and its callbacks are prompt, it and the callbacks take at most 13 steps, not counting
interrupted system calls; and until it has returned, one of these steps can be taken. -/
theorem neverReady_ends [DecidableEq T] {kernel : Kernel} {fds : FdManager}
    (hkind : a.kind = .do_io) (hhook : a.hookEnable = true) (hctx : BlockingSocket ctx)
    (hto : ctx.getTimeout a.timeoutSo ≠ wordSize - 1)
    (h : Path (proceed (IoSys.step a)) (untouched a ctx)
      (init kernel fds .create : IoSys S F C T) es s) :
    es.countP (fun e => e.2.counts) ≤ 13 ∧
      ((∃ n e, s.pc = .ret n e) ∨ ∃ act, act.counts = true ∧ (s.step a act).isSome = true) := by
  have hspent : s.Ending a (ctx.getTimeout a.timeoutSo) ∧
      es.countP (fun e => e.2.counts) + s.left ≤ 13 := by
    refine h.spent (ending_init a _ kernel fds) fun s act s' hending huntouched hstep => ?_
    have hstep := proceed_eq_some.mp hstep
    exact ⟨hending.step hkind hhook hctx huntouched hstep,
      hending.ends.left_step hkind hhook hctx huntouched.1 (step_does hstep)⟩
  obtain ⟨hending, hspent⟩ := hspent
  refine ⟨(Nat.le_add_right _ _).trans hspent, hending.ends.enabled hending.timely ?_⟩
  refine hending.timeout.imp_right fun heq => ?_
  rw [heq]
  exact hto

end IoSys

end CoLib
