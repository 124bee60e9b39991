/-
# `CoLib.Hook.ConnectResult` — a connect that is reported as established

`connect_with_timeout` waits until its fiber is handed over, and then takes the socket
for connected if `SO_ERROR` reads 0.  It does read 0 while the connect is in progress,
so the wake-up has to come from the kernel.

**Proved here.**  It need not: a `cancelEvent` of another fiber, or the `cancelAll` of
`close`, wakes the call just as well, and so does an event that the kernel reported to an
earlier registration and that `idle` comes to only now; and if `addEvent` fails the call
does not even wait (`unestablished`).  In runs in which none of this happens and the
number is not given out meanwhile, 0 is returned only after `connect_f` has returned 0,
or after the kernel has reported the socket writable to the call and `SO_ERROR` of the
same socket was 0 (`connect_established`).
-/
import CoLib.Hook.DoIoResult
import CoLib.Hook.Woken

namespace CoLib

open Lib Relation

variable {S F C T : Type}

namespace IoSys

/-- The kernel has reported the event of the call, which was registered for it, while the
number stood for descriptor `g`. -/
def Reported (a : WaitArgs S F) (es : History S F C T) (g : Nat) : Prop :=
  ∃ u t events mask r, (u, .wait t events) ∈ es ∧ (a.ctx, mask) ∈ events ∧
    (IOManager.realEvents mask).has a.event = true ∧ u.opened = g ∧ u.reg = some r ∧
    u.mgr.registered a.ctx a.event r = true

/-- The connection was established: `connect_f` has returned 0, or `SO_ERROR` of the socket
on which the call began was 0 after the kernel had reported that socket writable. -/
def Established (a : WaitArgs S F) (es : History S F C T) : Prop :=
  (∃ u r, (u, .call r) ∈ es ∧ r.n = 0) ∨
    ∃ es₁ u r es₂, es = es₁ ++ (u, .getsockopt r none) :: es₂ ∧ r.n ≠ -1 ∧
      u.enteredOn = some u.opened ∧ Reported a es₁ u.opened

/-! ## The condition -/

/-- The event that thread `t` handles next was reported after the call had registered. -/
def current (s : IoSys S F C T) (t : T) : Bool :=
  (s.reports t).head?.any fun e => s.reg.any (· < e.before)

/-- The condition on a step: `addEvent` is accepted, nothing wakes the call before its
timer has set the flag but an event that was reported to it, and the number is not given
out while the call is past its checks. -/
def undisturbed (a : WaitArgs S F) (s : IoSys S F C T) : IoAct S F C T → Prop
  | .add ok => (s.addEvent a ok).toOption.all fun (_, rt) => rt = 0
  | .socket .. => s.pc.checked = false
  | .dispatch t ok =>
      s.wakes a (.dispatch t ok) = true → s.cancelled.isSome = true ∨ s.current t = true
  | act => s.wakes a act = true → s.cancelled.isSome = true

variable {a : WaitArgs S F} {s s' : IoSys S F C T} {es : History S F C T}
  {act : IoAct S F C T}

/-! ## What the kernel has reported -/

/-- The event was reported in a state from which the manager has moved to this one; and if
the call, which is past its checks, had registered by then, it was registered then, and the
number stood for the same descriptor. -/
def Made (es : History S F C T) (s : IoSys S F C T) (e : Report) : Prop :=
  ∃ u t events, (u, .wait t events) ∈ es ∧ (e.ptr, e.mask) ∈ events ∧
    e.before = u.mgr.nextReg ∧ ReflTransGen (IOManager.Move fun _ => True) u.mgr s.mgr ∧
    ∀ r, s.pc.checked = true → s.reg = some r → r < e.before →
      u.reg = some r ∧ u.opened = s.opened

/-- Every event not handled yet was reported; and a call that has not begun has not
registered. -/
structure ReportsOk (es : History S F C T) (s : IoSys S F C T) : Prop where
  made : ∀ t, ∀ e ∈ s.reports t, Made es s e
  start : s.pc = .entry → s.reg = none

theorem reportsOk_init (kernel : Kernel) (fds : FdManager) (mgr : IOManager S F C) :
    ReportsOk [] (init kernel fds mgr : IoSys S F C T) where
  made := fun _ _ h => absurd h List.not_mem_nil
  start := fun _ => rfl

/-- What was reported stays so, while the number is not given out to a call past its
checks. -/
theorem Made.step {e : Report} (h : Made es s e) (hstart : s.pc = .entry → s.reg = none)
    (hframe : Frame a s act s')
    (hsocket : ∀ t file hooked, act = .socket t file hooked → s.pc.checked = false) :
    Made (es ++ [(s, act)]) s' e := by
  obtain ⟨u, t, events, hu, he, hbefore, hmoves, hreg⟩ := h
  refine ⟨u, t, events, mem_snoc hu, he, hbefore, hmoves.trans hframe.moves,
    fun r hc hr hlt => ?_⟩
  rcases hframe.reg with hsame | ⟨-, -, -, hnew⟩
  · rcases hframe.checked hc with ⟨hc, -⟩ | ⟨hentry, -⟩
    · obtain ⟨hur, hug⟩ := hreg r hc (hsame ▸ hr) hlt
      rcases hframe.opened with hopened | ⟨t, file, hooked, hact⟩
      · exact ⟨hur, hug.trans hopened.symm⟩
      · exact absurd (hc.symm.trans (hsocket t file hooked hact)) (by decide)
    · rw [hsame, hstart hentry] at hr
      cases hr
  · -- a registration made now is no earlier than any report
    obtain rfl := Option.some.inj (hnew.symm.trans hr)
    have hle : u.mgr.nextReg ≤ s.mgr.nextReg := IOManager.nextReg_moves hmoves
    omega

/-- Only `wait` adds to the events that are not handled yet. -/
theorem Others.reports [DecidableEq T] (h : Others a s act s') {t : T} {e : Report}
    (he : e ∈ s'.reports t) : e ∈ s.reports t ∨ ∃ u events, act = .wait u events ∧
      (e.ptr, e.mask) ∈ events ∧ e.before = s.mgr.nextReg := by
  cases h with
  | @wait u events =>
      dsimp only at he
      by_cases htu : t = u
      · subst htu
        rw [Function.update_self] at he
        obtain ⟨⟨ptr, mask⟩, hmem, rfl⟩ := List.mem_map.mp he
        exact .inr ⟨t, events, rfl, hmem, rfl⟩
      · rw [Function.update_of_ne htu] at he
        exact .inl he
  | @dispatch u ok report reports mgr hreports =>
      left
      dsimp only at he
      by_cases htu : t = u
      · subst htu
        rw [Function.update_self] at he
        rw [hreports]
        exact List.mem_cons_of_mem _ he
      · rwa [Function.update_of_ne htu] at he
  | event | resize | close | closeRaw | cancelAll | del | close_f | socket | get => exact .inl he

/-- The call itself adds none. -/
theorem step_reports [DecidableEq T] (hframe : Frame a s act s')
    (hstep : s.step a act = some (.ok s')) {t : T} {e : Report} (he : e ∈ s'.reports t) :
    e ∈ s.reports t ∨ ∃ u events, act = .wait u events ∧ (e.ptr, e.mask) ∈ events ∧
      e.before = s.mgr.nextReg := by
  cases hact : act.foreign with
  | false =>
      rw [hframe.reports hact] at he
      exact .inl he
  | true => exact (step_others hact hstep).reports he

theorem ReportsOk.step [DecidableEq T] (h : ReportsOk es s) (hframe : Frame a s act s')
    (hstep : s.step a act = some (.ok s'))
    (hsocket : ∀ t file hooked, act = .socket t file hooked → s.pc.checked = false) :
    ReportsOk (es ++ [(s, act)]) s' where
  made := fun t e he => by
    rcases step_reports hframe hstep he with he | ⟨u, events, rfl, hmem, hbefore⟩
    · exact (h.made t e he).step h.start hframe hsocket
    · -- the event is reported now
      refine ⟨s, u, events, mem_last _, hmem, hbefore, hframe.moves, fun r hc hr hlt => ?_⟩
      rcases hframe.reg with hreg | ⟨-, -, -, hnew⟩
      · rcases hframe.opened with hopened | ⟨_, _, _, hact⟩
        · exact ⟨hreg ▸ hr, hopened.symm⟩
        · cases hact
      · rw [hnew, Option.some.injEq] at hr
        omega
  start := fun hpc => by
    have hentry := hframe.entry hpc
    rcases hframe.reg with hreg | ⟨-, -, hadd, -⟩
    · exact hreg.trans (h.start hentry)
    · exact absurd (hentry.symm.trans hadd) (by simp)

/-- An event that was reported after the call had registered was reported to the call. -/
theorem reported_of_current [DecidableEq T] {r : Nat} {t : T} {ok : Bool} (h : ReportsOk es s)
    (hown : s.mgr.Own a.ctx a.event r) (hr : s.reg = some r) (hpc : s.pc.checked = true)
    (hwakes : s.wakes a (.dispatch t ok) = true) (hcurrent : s.current t = true) :
    Reported a es s.opened := by
  rw [wakes, Option.any_eq_true] at hwakes
  obtain ⟨e, hhead, hwakes⟩ := hwakes
  rw [current, hhead, Option.any_some, hr, Option.any_some, decide_eq_true_eq] at hcurrent
  rw [Bool.and_eq_true, hr, Option.any_some] at hwakes
  obtain ⟨hmask, hreg⟩ := hwakes
  obtain ⟨u, t', events, hu, he, hbefore, hmoves, hsame⟩ :=
    h.made t e (List.mem_of_mem_head? hhead)
  obtain ⟨hur, hug⟩ := hsame r hpc hr hcurrent
  have hthen := IOManager.registered_moves (hbefore ▸ hcurrent) hmoves hreg
  obtain ⟨hplace, -⟩ := hown.place _ _ (IOManager.stored_of_registered hreg)
  rw [hplace] at he hthen
  exact ⟨u, t', events, e.mask, r, hu, he, hmask, hug, hur, hthen⟩

/-! ## The wake-up -/

theorem Reported.snoc {g : Nat} (h : Reported a es g) (e : IoSys S F C T × IoAct S F C T) :
    Reported a (es ++ [e]) g := by
  obtain ⟨u, t, events, mask, r, hu, h⟩ := h
  exact ⟨u, t, events, mask, r, mem_snoc hu, h⟩

theorem Established.snoc (h : Established a es) (e : IoSys S F C T × IoAct S F C T) :
    Established a (es ++ [e]) := by
  rcases h with ⟨u, r, hu, hr⟩ | ⟨es₁, u, r, es₂, rfl, h⟩
  · exact .inl ⟨u, r, mem_snoc hu, hr⟩
  · exact .inr ⟨es₁, u, r, es₂ ++ [e], by simp, h⟩

theorem Registers.snoc {r : Nat} (h : Registers a es r) (e : IoSys S F C T × IoAct S F C T) :
    Registers a (es ++ [e]) r := by
  obtain ⟨u, ok, mgr, hu, hadd, hr⟩ := h
  exact ⟨u, ok, mgr, mem_snoc hu, hadd, hr⟩

/-- What wakes an undisturbed call that is not timed out was reported to it. -/
theorem undisturbed_wakes (h : s.undisturbed a act) (hwakes : s.wakes a act = true) :
    s.cancelled ≠ none ∨ ∃ t ok, act = .dispatch t ok ∧ s.current t = true := by
  cases act with
  | dispatch t ok => exact (h hwakes).imp Option.isSome_iff_ne_none.mp (⟨t, ok, rfl, ·⟩)
  | event p call ok => exact .inl (Option.isSome_iff_ne_none.mp (h hwakes))
  | cancelAll t ok => exact .inl (Option.isSome_iff_ne_none.mp (h hwakes))
  | _ => exact absurd hwakes Bool.false_ne_true

/-- If the call has been handed over, it is timed out or the kernel has reported; and it
asks for `SO_ERROR` only after a report. -/
structure WokenOk (a : WaitArgs S F) (es : History S F C T) (s : IoSys S F C T) : Prop where
  reg : ∀ r, s.reg = some r → Registers a es r
  owing : .owing ∈ s.timers → s.cancelled ≠ none
  woken : ∀ r, s.reg = some r → s.mgr.Handed r →
    s.cancelled ≠ none ∨ (s.pc.checked = true → Reported a es s.opened)
  resumed : s.pc = .resumed ∨ s.pc = .test → ∃ r, s.reg = some r ∧ s.mgr.Handed r
  accepted : s.pc ≠ .refused
  asks : s.pc = .getsockopt → Reported a es s.opened
  ret : ∀ e, s.pc = .ret 0 e → Established a es

theorem wokenOk_init (a : WaitArgs S F) (kernel : Kernel) (fds : FdManager)
    (mgr : IOManager S F C) : WokenOk a [] (init kernel fds mgr : IoSys S F C T) where
  reg := fun r h => absurd h (by simp [init])
  owing := fun h => absurd h (by simp [init])
  woken := fun r h => absurd h (by simp [init])
  resumed := fun h => absurd h (by simp [init])
  accepted := by simp [init]
  asks := fun h => absurd h (by simp [init])
  ret := fun e h => absurd h (by simp [init])

/-- The call goes on. -/
theorem WokenOk.goto (h : WokenOk a es s) (hchecked : s.pc = .entry ∧ s.reg = none ∨
      (s'.pc.checked = true → s.pc.checked = true))
    (hopened : s'.opened = s.opened) (hmgr : s'.mgr = s.mgr) (hreg : s'.reg = s.reg)
    (hcan : s'.cancelled = s.cancelled) (howing : .owing ∈ s'.timers → .owing ∈ s.timers)
    (hresumed : s'.pc = .resumed ∨ s'.pc = .test → ∃ r, s.reg = some r ∧ s.mgr.Handed r)
    (haccepted : s'.pc ≠ .refused) (hasks : s'.pc = .getsockopt → Reported a es s.opened)
    (hret : ∀ e, s'.pc = .ret 0 e → Established a (es ++ [(s, act)])) :
    WokenOk a (es ++ [(s, act)]) s' where
  reg := fun r hr => (h.reg r (hreg ▸ hr)).snoc _
  owing := fun ho => by
    rw [hcan]
    exact h.owing (howing ho)
  woken := fun r hr hh => by
    rw [hreg] at hr
    rw [hcan, hopened]
    refine (h.woken r hr (hmgr ▸ hh)).imp_right fun hrep hc => ?_
    rcases hchecked with ⟨-, hnone⟩ | hchecked
    · rw [hnone] at hr
      cases hr
    · exact (hrep (hchecked hc)).snoc _
  resumed := fun hpc => by
    rw [hreg, hmgr]
    exact hresumed hpc
  accepted := haccepted
  asks := fun hpc => by
    rw [hopened]
    exact (hasks hpc).snoc _
  ret := hret

/-- Others act, or a callback does. -/
theorem WokenOk.stay (h : WokenOk a es s) (hreg : s'.reg = s.reg) (hpc : s'.pc = s.pc)
    (hopened : s.pc.checked = true → s'.opened = s.opened)
    (hmoves : ReflTransGen (IOManager.Move fun _ => True) s.mgr s'.mgr)
    (howing : .owing ∈ s'.timers → s'.cancelled ≠ none)
    (hwoken : ∀ r, s.reg = some r → s'.mgr.Handed r →
      s'.cancelled ≠ none ∨ (s.pc.checked = true → Reported a es s.opened)) :
    WokenOk a (es ++ [(s, act)]) s' where
  reg := fun r hr => (h.reg r (hreg ▸ hr)).snoc _
  owing := howing
  woken := fun r hr hh => by
    refine (hwoken r (hreg ▸ hr) hh).imp_right fun hrep hc => ?_
    rw [hpc] at hc
    rw [hopened hc]
    exact (hrep hc).snoc _
  resumed := fun hp => by
    obtain ⟨r, hr, hh⟩ := h.resumed (hpc ▸ hp)
    exact ⟨r, hreg.trans hr, IOManager.handed_moves hh hmoves⟩
  accepted := by
    rw [hpc]
    exact h.accepted
  asks := fun hp => by
    rw [hpc] at hp
    rw [hopened (by rw [hp]; rfl)]
    exact (h.asks hp).snoc _
  ret := fun e he => (h.ret e (hpc ▸ he)).snoc _

/-- Setting a timer to something else than `owing` makes no callback owe a
cancellation. -/
theorem owing_of_set {l : List CondTimer} {i : Nat} {t : CondTimer} (ht : t ≠ .owing)
    (h : .owing ∈ l.set i t) : .owing ∈ l := by
  rcases List.mem_or_eq_of_mem_set h with h | h
  · exact h
  · exact absurd h.symm ht

theorem WokenOk.added (h : WokenOk a es s) (hregs : RegsOk a es s) {ok : Bool}
    {mgr : IOManager S F C} (hadd : s.addEvent a ok = .ok (mgr, 0)) :
    WokenOk a (es ++ [(s, .add ok)])
      { s with mgr, pc := .yield, reg := some s.mgr.nextReg } where
  reg := fun r hr => ⟨s, ok, mgr, mem_last _, hadd, (Option.some.inj hr).symm⟩
  owing := h.owing
  woken := fun r hr hh => by
    obtain rfl := Option.some.inj hr
    exact absurd hh (IOManager.addEvent_own hregs.numbered hadd).2
  resumed := fun hpc => absurd hpc (by simp)
  accepted := by simp
  asks := fun hpc => absurd hpc (by simp)
  ret := fun e hpc => absurd hpc (by simp)

/-- The result of `connect_f` ends the call, or it waits. -/
theorem WokenOk.call (h : WokenOk a es s) (hkind : a.kind = .connect_with_timeout)
    (hpc : s.pc = .call) (r : SysResult) :
    WokenOk a (es ++ [(s, .call r)]) (s.callResult a r) := by
  have hchecked : s.pc.checked = true := by rw [hpc]; rfl
  simp only [callResult, hkind]
  split
  · exact h.goto (.inr fun _ => hchecked) rfl rfl rfl rfl id (by simp) (by simp) (by simp)
      (by simp)
  · refine h.goto (.inr fun _ => hchecked) rfl rfl rfl rfl id (by simp) (by simp) (by simp)
      fun e he => .inl ?_
    exact ⟨s, r, mem_last _, (IoPc.ret.inj he).1⟩

theorem WokenOk.step [DecidableEq T] (h : WokenOk a es s) (hregs : RegsOk a es s)
    (hreports : ReportsOk es s) (hentered : s.Entered) (hkind : a.kind = .connect_with_timeout)
    (hundisturbed : s.undisturbed a act) (hstep : s.step a act = some (.ok s')) :
    WokenOk a (es ++ [(s, act)]) s' := by
  have hdoes : Does a s act s' := step_does hstep
  have hchecked : ∀ {pc pc' : IoPc}, s.pc = pc → pc.checked = true →
      s.pc = .entry ∧ s.reg = none ∨ (pc'.checked = true → s.pc.checked = true) :=
    fun hpc hc => .inr fun _ => by rw [hpc, hc]
  cases hdoes with
  | enter hpc =>
      obtain ⟨pc, timeout, enteredOn, heq, hcases⟩ := enter_eq a s
      rw [heq]
      refine h.goto (.inl ⟨hpc, hreports.start hpc⟩) rfl rfl rfl rfl id ?_ ?_ ?_ ?_ <;>
        rcases hcases with ⟨-, rfl | rfl⟩ | ⟨rfl, -⟩ <;> simp
  | plain r hpc =>
      refine h.goto (.inr fun hc => absurd hc Bool.false_ne_true) rfl rfl rfl rfl id (by simp)
        (by simp) (by simp) fun e he => .inl ?_
      exact ⟨s, r, mem_last _, (IoPc.ret.inj he).1⟩
  | call r hpc => exact h.call hkind hpc r
  | arm hpc =>
      rw [IoSys.arm]
      split
      · exact h.goto (hchecked hpc rfl) rfl rfl rfl rfl id (by simp) (by simp) (by simp) (by simp)
      · exact h.goto (hchecked hpc rfl) rfl rfl rfl rfl (by simp) (by simp) (by simp) (by simp)
          (by simp)
  | added ok mgr hpc hadd => exact h.added hregs hadd
  | refused ok mgr rt hpc hadd hrt =>
      have hzero : (s.addEvent a ok).toOption.all (fun (_, rt) => rt = 0) = true := hundisturbed
      rw [hadd] at hzero
      exact absurd (of_decide_eq_true hzero) hrt
  | yield hpc =>
      exact h.goto (hchecked hpc rfl) rfl rfl rfl rfl id (by simp) (by simp) (by simp) (by simp)
  | resume hpc hhanded =>
      refine h.goto (hchecked hpc rfl) rfl rfl rfl rfl id (fun _ => ?_) (by simp) (by simp)
        (by simp)
      obtain ⟨r, hr, hh⟩ := Option.any_eq_true _ _ |>.mp hhanded
      exact ⟨r, hr, hh⟩
  | disarm pc' hafter =>
      obtain ⟨timers, heq, howing⟩ := cancelTimer_eq s
      rw [heq]
      rcases hafter with ⟨hpc, rfl⟩ | ⟨hpc, -⟩ | ⟨hpc, -⟩
      · exact h.goto (hchecked hpc rfl) rfl rfl rfl rfl (fun ho => howing _ ho rfl)
          (fun _ => h.resumed (.inl hpc)) (by simp) (by simp) (by simp)
      · exact absurd hpc h.accepted
      · exact absurd hpc h.accepted
  | test pc' hpc hafter =>
      rcases hafter with ⟨e, -, rfl⟩ | ⟨-, hother, -⟩ | ⟨hcan, -, rfl⟩
      · exact h.goto (hchecked hpc rfl) rfl rfl rfl rfl id (by simp) (by simp) (by simp) (by simp)
      · exact absurd (hkind.symm.trans hother) (by decide)
      · refine h.goto (hchecked hpc rfl) rfl rfl rfl rfl id (by simp) (by simp) (fun _ => ?_)
          (by simp)
        obtain ⟨r, hr, hh⟩ := h.resumed (.inr hpc)
        exact (h.woken r hr hh).resolve_left (not_not.mpr hcan) (by rw [hpc]; rfl)
  | getsockopt r error pc' hpc hafter =>
      have hc : s.pc.checked = true := by rw [hpc]; rfl
      rcases hafter with ⟨-, rfl⟩ | ⟨hr, rfl, rfl⟩ | ⟨-, e, -, rfl⟩
      · exact h.goto (hchecked hpc rfl) rfl rfl rfl rfl id (by simp) (by simp) (by simp) (by simp)
      · refine h.goto (hchecked hpc rfl) rfl rfl rfl rfl id (by simp) (by simp) (by simp)
          fun _ _ => .inr ?_
        exact ⟨es, s, r, [], rfl, hr, hentered hc, h.asks hpc⟩
      · exact h.goto (hchecked hpc rfl) rfl rfl rfl rfl id (by simp) (by simp) (by simp) (by simp)
  | @callback _ i t t' ht hcb =>
      refine h.stay rfl rfl (fun _ => rfl) .refl (fun ho => h.owing ?_) h.woken
      refine owing_of_set ?_ ho
      cases hcb with
      | expire => decide
      | lock => split <;> decide
      | check => split <;> decide
  | set i ht =>
      exact h.stay rfl rfl (fun _ => rfl) .refl (fun _ => by simp) fun _ _ _ => .inl (by simp)
  | cancelEvent i ok b mgr ht hrun =>
      have hcan : s.cancelled ≠ none := h.owing (List.mem_of_getElem? ht)
      exact h.stay rfl rfl (fun _ => rfl) (IOManager.cancelEvent_moves hrun) (fun _ => hcan)
        fun _ _ _ => .inl hcan
  | foreign kernel opened fds mgr reports others hforeign hmoves hopened =>
      refine h.stay rfl rfl (fun hc => ?_) hmoves h.owing fun r hr hh => ?_
      · rcases hopened with hopened | ⟨t, file, hooked, rfl⟩
        · exact hopened
        · exact absurd (hc.symm.trans hundisturbed) (by decide)
      · have hown := hregs.own r (h.reg r hr)
        rcases (step_others hforeign hstep).hands hown hr hh with hh | hwakes
        · exact h.woken r hr hh
        · rcases undisturbed_wakes hundisturbed hwakes with hcan | ⟨t, ok, rfl, hcurrent⟩
          · exact .inl hcan
          · exact .inr fun hc => reported_of_current hreports hown hr hc hwakes hcurrent

/-- **Success is reported of established connections**, in every undisturbed run. -/
theorem connect_established [DecidableEq T] {kernel : Kernel} {fds : FdManager}
    (hkind : a.kind = .connect_with_timeout)
    (h : Path (proceed (IoSys.step a)) (undisturbed a)
      (init kernel fds .create : IoSys S F C T) es s)
    {e : Option Errno} (hret : s.pc = .ret 0 e) : Established a es := by
  obtain ⟨-, -, -, hwoken⟩ :
      RegsOk a es s ∧ ReportsOk es s ∧ s.Entered ∧ WokenOk a es s := by
    refine h.invariant
      (I := fun es s => RegsOk a es s ∧ ReportsOk es s ∧ s.Entered ∧ WokenOk a es s)
      ⟨regsOk_init a kernel fds, reportsOk_init kernel fds .create,
        fun hc => absurd hc Bool.false_ne_true, wokenOk_init a kernel fds .create⟩ ?_
    rintro es s act s' ⟨hregs, hreports, hentered, hwoken⟩ hundisturbed hstep
    have hstep := proceed_eq_some.mp hstep
    have hdoes : Does a s act s' := step_does hstep
    have hsocket : ∀ t file hooked, act = .socket t file hooked → s.pc.checked = false := by
      rintro t file hooked rfl
      exact hundisturbed
    exact ⟨hregs.step hdoes, hreports.step (does_frame hdoes) hstep hsocket,
      hentered.step (does_frame hdoes) hsocket,
      hwoken.step hregs hreports hentered hkind hundisturbed hstep⟩
  exact hwoken.ret e hret

/-! ### Four runs -/

/-- A `connect` on descriptor 5. -/
def connect5 : WaitArgs Unit Unit :=
  { kind := .connect_with_timeout
    hookEnable := true
    fd := 5
    ctx := 5
    event := .WRITE
    timeoutSo := .SO_SNDTIMEO
    timeoutMs := 5000
    scheduler := some ()
    fiber := () }

instance (a : WaitArgs S F) (s : IoSys S F C T) :
    (act : IoAct S F C T) → Decidable (s.undisturbed a act)
  | .add _ => instDecidableEqBool _ _
  | .socket .. => inferInstanceAs (Decidable (s.pc.checked = false))
  | .dispatch t ok => inferInstanceAs (Decidable
      (s.wakes a (.dispatch t ok) = true → s.cancelled.isSome = true ∨ s.current t = true))
  | .enter | .call _ | .arm | .yield | .resume | .disarm | .test | .getsockopt ..
  | .expire _ | .lock _ | .check _ | .set _ | .cancelEvent .. | .event .. | .wait ..
  | .resize _ | .close .. | .cancelAll .. | .del _ | .close_f _ | .get _ =>
      inferInstanceAs (Decidable (s.wakes a _ = true → s.cancelled.isSome = true))

/-- The connect is in progress until the kernel reports the socket writable. -/
def established : List (IoAct Unit Unit Unit Unit) :=
  [.enter, .call ⟨-1, .EINPROGRESS⟩, .arm, .add true, .yield,
    .wait () [(5, ⟨false, true, false, false⟩)], .dispatch () true, .resume, .disarm, .test,
    .getsockopt ⟨0, .other 0⟩ none]

theorem connect_established_established :
    ∃ es s, Path (proceed (IoSys.step connect5)) (undisturbed connect5) socket5 es s ∧
      s.pc = .ret 0 none ∧ es.map Prod.snd = established ∧ Established connect5 es := by
  have h : (run (guarded (proceed (IoSys.step connect5)) (undisturbed connect5)) socket5
      established).any (fun s => decide (s.pc = .ret 0 none)) = true := by decide +kernel
  obtain ⟨s, hs, hpc⟩ := Option.any_eq_true _ _ |>.mp h
  obtain ⟨es, hes, hacts⟩ := run_path _ hs
  have hpc := of_decide_eq_true hpc
  exact ⟨es, s, hes, hpc, hacts, connect_established rfl hes hpc⟩

/-- The step brings no result 0, and no report while the call is registered. -/
def misses (e : IoSys S F C T × IoAct S F C T) : Bool :=
  match e.2 with
  | .call r => r.n ≠ 0
  | .wait .. => e.1.reg.isNone
  | _ => true

/-- Without a result 0 and without a report to the call nothing is established. -/
theorem not_established (h : ∀ e ∈ es, misses e = true) : ¬ Established a es := by
  rintro (⟨u, r, hu, hr⟩ |
    ⟨es₁, v, _, es₂, rfl, -, -, u, t, events, mask, r, hu, -, -, -, hreg, -⟩)
  · exact absurd hr (of_decide_eq_true (h _ hu))
  · have hnone : u.reg.isNone = true := h _ (List.mem_append_left _ hu)
    rw [hreg] at hnone
    cases hnone

/-- `addEvent` fails while the connect is in progress. -/
def refused : List (IoAct Unit Unit Unit Unit) :=
  [.enter, .call ⟨-1, .EINPROGRESS⟩, .arm, .add false, .disarm, .getsockopt ⟨0, .other 0⟩ none]

/-- Another fiber cancels the event while the connect is in progress. -/
def cancelledByOther : List (IoAct Unit Unit Unit Unit) :=
  [.enter, .call ⟨-1, .EINPROGRESS⟩, .arm, .add true, .yield, .event 5 (.cancelEvent 5 .WRITE) true,
    .resume, .disarm, .test, .getsockopt ⟨0, .other 0⟩ none]

/-- The kernel has reported the event to a callback that was registered before, and `idle`
comes to it while the connect is in progress. -/
def staleReport : List (IoAct Unit Unit Unit Unit) :=
  [.event 5 (.addEvent 5 .WRITE ⟨some (), some (), (), true⟩) true,
    .wait () [(5, ⟨false, true, false, false⟩)], .event 5 (.cancelEvent 5 .WRITE) true, .enter,
    .call ⟨-1, .EINPROGRESS⟩, .arm, .add true, .yield, .dispatch () true, .resume, .disarm, .test,
    .getsockopt ⟨0, .other 0⟩ none]

/-- The run returns 0, and nothing has been established. -/
def Unestablished (acts : List (IoAct Unit Unit Unit Unit)) : Prop :=
  ∃ es s, Path (proceed (IoSys.step connect5)) (fun _ _ => True) socket5 es s ∧
    es.map Prod.snd = acts ∧ s.pc = .ret 0 none ∧ ¬ Established connect5 es

theorem unestablished_of_run {acts : List (IoAct Unit Unit Unit Unit)}
    (h : (run (guarded (proceed (IoSys.step connect5)) fun _ _ => True) socket5 acts).any
      (fun s => decide (s.pc = .ret 0 none)) = true)
    (hmisses : (history (guarded (proceed (IoSys.step connect5)) fun _ _ => True) socket5 acts).all
      misses = true) : Unestablished acts := by
  obtain ⟨s, hs, hpc⟩ := Option.any_eq_true _ _ |>.mp h
  exact ⟨_, s, run_history acts hs, history_actions acts hs, of_decide_eq_true hpc,
    not_established (List.all_eq_true.mp hmisses)⟩

/-- The call returns 0 although it has never waited, or takes the cancellation or an event
that is none of its own for the completion. -/
theorem unestablished :
    Unestablished refused ∧ Unestablished cancelledByOther ∧ Unestablished staleReport :=
  ⟨unestablished_of_run (by decide +kernel) (by decide +kernel),
    unestablished_of_run (by decide +kernel) (by decide +kernel),
    unestablished_of_run (by decide +kernel) (by decide +kernel)⟩

end IoSys

end CoLib
