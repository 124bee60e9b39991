/-
# `CoLib.Hook.Reuse` — a descriptor number that is given out again

The hooked `close` wakes the fibers that wait on the descriptor, drops the record
and closes.  A fiber woken so runs later, and `do_io` then makes its system call
with the number it was called with.  The record is looked at only on entry, and
nothing sets `m_isClosed`, so the call does not see that the number stands for
another descriptor by then.  Nor does `close` wait for the fiber: one that runs
before `close_f` finds the old descriptor open, and may register on it again, with
nobody left to wake it.

**Proved here.**  `apart` is the condition that `socket` and `accept` do not give
the number out while a call is past its checks, and `heard` that a call is woken by
the closes it has to hear of: they go through the hooks, the kernel accepts their
`epoll_ctl`, and the call does not register between a `cancelAll` and its `close_f`.
`retry_sees_close`: in runs that keep apart, a call makes every system call on the
descriptor on which it began, or, when that has been closed, returns -1 with
`EBADF`; and if closes are heard as well, a call does not stay parked on a
descriptor that has been closed.
-/
import CoLib.Hook.Woken

namespace CoLib

open Lib Relation

variable {S F C T : Type}

/-- A thread in `close` is past `cancelAll` and has not closed yet. -/
def ClosePhase.past : ClosePhase → Bool
  | deleting => true
  | deleted => true
  | _ => false

namespace IoSys

/-! ## The conditions -/

/-- The condition on a step: the number is not given out while the call is past its
checks. -/
def apart (s : IoSys S F C T) : IoAct S F C T → Prop
  | .socket .. => s.pc.checked = false
  | _ => True

/-- The condition on a step: a close of the call's descriptor is hooked, on a thread
with an `IOManager`, and its `cancelAll` is accepted if the call is registered; the
call does not register while a thread is past `cancelAll`; and nobody removes its
registration. -/
def heard (a : WaitArgs S F) (s : IoSys S F C T) : IoAct S F C T → Prop
  | .close _ hooked iom => s.pc.checked = true → hooked = true ∧ iom = true
  | .cancelAll _ ok => s.reg.any (s.mgr.registered a.ctx a.event) = true →
      ok = true ∧ (s.mgr.epoll a.fd).isSome = true
  | .add _ => ∀ t, (s.others t).past = false
  | act => s.drops act = false

variable {a : WaitArgs S F} {s s' : IoSys S F C T} {act : IoAct S F C T}

theorem apart_socket (h : s.apart act) (t : T) (file : File) (hooked : Bool)
    (hact : act = .socket t file hooked) : s.pc.checked = false := by
  subst hact
  exact h

/-! ## A close that is heard -/

/-- A descriptor that is open has its record, unless it is about to be closed; and a call
that is registered is handed over before it is closed. -/
structure Heard (a : WaitArgs S F) (s : IoSys S F C T) : Prop where
  record : s.pc.checked = true → (s.fds.find a.fd).isSome = true ∨ s.kernel a.fd = none ∨
    ∃ t, s.others t = .deleted
  waits : s.pc = .yield ∨ s.pc = .parked → ∃ r, s.reg = some r ∧
    (s.mgr.Handed r ∨ s.mgr.Awaits a.ctx a.event r ∧ (s.kernel a.fd).isSome = true ∧
      (s.fds.find a.fd).isSome = true ∧ ∀ t, (s.others t).past = false)

theorem heard_init (a : WaitArgs S F) (kernel : Kernel) (fds : FdManager)
    (mgr : IOManager S F C) : (init kernel fds mgr : IoSys S F C T).Heard a where
  record := fun h => absurd h Bool.false_ne_true
  waits := fun h => absurd h (by simp [init])

theorem waits_checked (h : s.pc = .yield ∨ s.pc = .parked) : s.pc.checked = true := by
  rcases h with h | h <;> rw [h] <;> rfl

/-- A record that there is stays when the descriptor is looked up again. -/
theorem getOrCreate_some {m : FdManager} {k : Kernel} {fd : Nat} (h : (m.find fd).isSome = true) :
    m.getOrCreate k fd = (m, k) := by
  obtain ⟨ctx, hctx⟩ := Option.isSome_iff_exists.mp h
  rw [FdManager.getOrCreate, hctx]

theorem getOrCreate_closed {m : FdManager} {k : Kernel} {fd : Nat} (h : k fd = none) :
    (m.getOrCreate k fd).2 fd = none := by
  cases hfind : m.find fd with
  | some ctx =>
      rw [getOrCreate_some (by rw [hfind]; rfl)]
      exact h
  | none => simp [FdManager.getOrCreate, hfind, FdCtx.create, FdCtx.init, h]

/-- The call goes on to a place where it does not wait. -/
theorem Heard.goto (h : s.Heard a) (hkernel : s'.kernel = s.kernel) (hfds : s'.fds = s.fds)
    (hothers : s'.others = s.others) (hpc : s.pc.checked = true)
    (hwait : s'.pc ≠ .yield ∧ s'.pc ≠ .parked) : s'.Heard a where
  record := by
    rw [hkernel, hfds, hothers]
    exact fun _ => h.record hpc
  waits := fun hw => absurd hw (not_or.mpr hwait)

/-- The call registers while no thread is past `cancelAll`. -/
theorem Heard.added (h : s.Heard a) (hpc : s.pc = .add) {ok : Bool} {mgr : IOManager S F C}
    (hpast : ∀ t, (s.others t).past = false) (hadd : s.addEvent a ok = .ok (mgr, 0)) :
    ({ s with mgr, pc := .yield, reg := some s.mgr.nextReg } : IoSys S F C T).Heard a := by
  have hrecord := h.record (by rw [hpc]; rfl)
  refine ⟨fun _ => hrecord, fun _ => ⟨_, rfl, .inr ⟨IOManager.addEvent_awaits rfl hadd, ?_⟩⟩⟩
  rcases IOManager.addEvent_stores hadd with ⟨-, hrt⟩ | ⟨_, _, _, -, -, -, -, -, -, hok⟩
  · cases hrt
  · have hopen : (s.kernel a.fd).isSome = true := (Bool.and_eq_true _ _ ▸ hok).2
    refine ⟨hopen, ?_, hpast⟩
    rcases hrecord with hfind | hclosed | ⟨t, ht⟩
    · exact hfind
    · rw [hclosed] at hopen
      cases hopen
    · have hno := hpast t
      rw [ht] at hno
      cases hno

/-- The call, or a callback of its timers, goes on. -/
theorem Heard.own (h : s.Heard a) (hact : act.foreign = false) (hheard : s.heard a act)
    (hdoes : Does a s act s') : s'.Heard a := by
  cases hdoes with
  | enter hpc =>
      obtain ⟨pc, timeout, enteredOn, heq, hcases⟩ := enter_eq a s
      rw [heq]
      rcases hcases with ⟨hno, hpc'⟩ | ⟨rfl, -, hfind⟩
      · refine ⟨fun hc => absurd (hc.symm.trans hno) (by decide), fun hw => ?_⟩
        rcases hpc' with rfl | rfl <;> simp at hw
      · exact ⟨fun _ => .inl hfind, fun hw => by simp at hw⟩
  | plain r hpc => exact ⟨fun hc => absurd hc Bool.false_ne_true, fun hw => by simp at hw⟩
  | call r hpc =>
      obtain ⟨pc, heq, hcases⟩ := callResult_eq a s r
      rw [heq]
      refine h.goto rfl rfl rfl (by rw [hpc]; rfl) ?_
      rcases hcases with rfl | rfl | rfl <;> simp [hpc]
  | arm hpc =>
      rw [IoSys.arm]
      split <;> exact h.goto rfl rfl rfl (by rw [hpc]; rfl) (by simp)
  | added ok mgr hpc hadd => exact h.added hpc hheard hadd
  | refused ok mgr rt hpc => exact h.goto rfl rfl rfl (by rw [hpc]; rfl) (by simp)
  | yield hpc => exact ⟨fun _ => h.record (by rw [hpc]; rfl), fun _ => h.waits (.inl hpc)⟩
  | resume hpc => exact h.goto rfl rfl rfl (by rw [hpc]; rfl) (by simp)
  | disarm pc' hafter =>
      obtain ⟨timers, heq, -⟩ := cancelTimer_eq s
      rw [heq]
      rcases hafter with ⟨hpc, rfl⟩ | ⟨hpc, -, rfl⟩ | ⟨hpc, -, rfl⟩ <;>
        exact h.goto rfl rfl rfl (by rw [hpc]; rfl) (by simp)
  | test pc' hpc hafter =>
      refine h.goto rfl rfl rfl (by rw [hpc]; rfl) ?_
      rcases hafter with ⟨e, -, rfl⟩ | ⟨-, -, rfl⟩ | ⟨-, -, rfl⟩ <;> simp
  | getsockopt r error pc' hpc hafter =>
      refine h.goto rfl rfl rfl (by rw [hpc]; rfl) ?_
      rcases hafter with ⟨-, rfl⟩ | ⟨-, -, rfl⟩ | ⟨-, e, -, rfl⟩ <;> simp
  | callback => exact ⟨h.record, h.waits⟩
  | set => exact ⟨h.record, h.waits⟩
  | cancelEvent i ok b mgr ht hrun =>
      refine ⟨h.record, fun hw => ?_⟩
      obtain ⟨r, hr, hcases⟩ := h.waits hw
      refine ⟨r, hr, ?_⟩
      rcases hcases with hh | ⟨haw, hrest⟩
      · exact .inl (IOManager.handed_moves hh
          (IOManager.cancelEvent_moves (G := fun _ => True) hrun))
      · exact (IOManager.cancelEvent_kept hrun (.inl haw)).symm.imp_right (⟨·, hrest⟩)
  | foreign _ _ _ _ _ _ hforeign => exact absurd (hforeign.symm.trans hact) (by decide)

section phases

variable [DecidableEq T]

/-- A thread goes on to a phase in which it is not past `cancelAll`. -/
theorem past_update {others : T → ClosePhase} {t : T} {ph : ClosePhase} (hph : ph.past = false)
    (h : ∀ u, (others u).past = false) (u : T) : (Function.update others t ph u).past = false := by
  by_cases hu : u = t
  · subst hu
    rw [Function.update_self]
    exact hph
  · rw [Function.update_of_ne hu]
    exact h u

/-- A thread that is about to close still is when another goes on. -/
theorem deleted_update {others : T → ClosePhase} {t : T} {ph : ClosePhase}
    (ht : others t ≠ .deleted) (h : ∃ u, others u = .deleted) :
    ∃ u, Function.update others t ph u = .deleted := by
  obtain ⟨u, hu⟩ := h
  have hne : u ≠ t := by
    rintro rfl
    exact ht hu
  exact ⟨u, (Function.update_of_ne hne ..).trans hu⟩

/-- A step of others that leaves the descriptor, its record and the threads in `close`
alone. -/
theorem Heard.foreign (h : s.Heard a) (hothers : Others a s act s')
    (hdrops : s.drops act = false) (hpc : s'.pc = s.pc) (hreg : s'.reg = s.reg)
    (hkernel : s'.kernel = s.kernel) (hfds : s'.fds = s.fds) (hclose : s'.others = s.others) :
    s'.Heard a where
  record := by
    rw [hpc, hkernel, hfds, hclose]
    exact h.record
  waits := by
    rw [hpc, hreg, hkernel, hfds, hclose]
    intro hwaits
    obtain ⟨r, hr, hcases⟩ := h.waits hwaits
    refine ⟨r, hr, ?_⟩
    rcases hcases with hh | ⟨hw, hrest⟩
    · exact .inl (IOManager.handed_moves hh hothers.moves)
    · rcases hothers.kept hdrops hr (.inl hw) with hw | hh
      · exact .inr ⟨hw, hrest⟩
      · exact .inl hh

/-- A thread in `close`, `socket` or `accept` goes on. -/
theorem Heard.others (h : s.Heard a) (hapart : s.apart act) (hheard : s.heard a act)
    (hothers : Others a s act s') : s'.Heard a := by
  cases hothers with
  | event hm => exact h.foreign (.event hm) hheard rfl rfl rfl rfl rfl
  | wait => exact h.foreign .wait hheard rfl rfl rfl rfl rfl
  | dispatch hreports hm => exact h.foreign (.dispatch hreports hm) hheard rfl rfl rfl rfl rfl
  | resize => exact h.foreign .resize hheard rfl rfl rfl rfl rfl
  | @close t iom hout =>
      have ht : s.others t ≠ .deleted := by simp [hout]
      refine ⟨fun hc => (h.record hc).imp_right (Or.imp_right (deleted_update ht)), fun hw => ?_⟩
      obtain ⟨r, hr, hcases⟩ := h.waits hw
      obtain ⟨-, rfl⟩ := hheard (waits_checked hw)
      refine ⟨r, hr, hcases.imp_right ?_⟩
      rintro ⟨haw, hk, hf, hpast⟩
      exact ⟨haw, hk, hf, past_update rfl hpast⟩
  | @closeRaw t hooked iom hout hnot =>
      refine ⟨fun _ => .inr (.inr ⟨t, Function.update_self ..⟩), fun hw => ?_⟩
      obtain ⟨r, hr, hh | ⟨-, -, hf, -⟩⟩ := h.waits hw
      · exact ⟨r, hr, .inl hh⟩
      · obtain ⟨rfl, -⟩ := hheard (waits_checked hw)
        exact absurd hf (by simpa using hnot)
  | @cancelAll t ok mgr b hclosing hm =>
      have ht : s.others t ≠ .deleted := by simp [hclosing]
      refine ⟨fun hc => (h.record hc).imp_right (Or.imp_right (deleted_update ht)), fun hw => ?_⟩
      obtain ⟨r, hr, hh | ⟨haw, -⟩⟩ := h.waits hw
      · exact ⟨r, hr, .inl (IOManager.handed_moves hh
          (IOManager.cancelAll_moves (G := fun _ => True) hm))⟩
      · obtain ⟨rfl, hep⟩ := hheard (by rw [hr, Option.any_some]; exact haw.registered)
        exact ⟨r, hr, .inl (IOManager.cancelAll_handed haw hep hm)⟩
  | @del t hdel =>
      refine ⟨fun _ => .inr (.inr ⟨t, Function.update_self ..⟩), fun hw => ?_⟩
      obtain ⟨r, hr, hh | ⟨-, -, -, hpast⟩⟩ := h.waits hw
      · exact ⟨r, hr, .inl hh⟩
      · exact absurd (hpast t) (by simp [hdel, ClosePhase.past])
  | @close_f t hdel =>
      refine ⟨fun _ => .inr (.inl (Function.update_self ..)), fun hw => ?_⟩
      obtain ⟨r, hr, hh | ⟨-, -, -, hpast⟩⟩ := h.waits hw
      · exact ⟨r, hr, .inl hh⟩
      · exact absurd (hpast t) (by simp [hdel, ClosePhase.past])
  | socket =>
      have hno : s.pc.checked = false := hapart
      refine ⟨fun hc => absurd (hc.symm.trans hno) (by decide), fun hw => ?_⟩
      exact absurd ((waits_checked hw).symm.trans hno) (by decide)
  | @get t hopened =>
      have ht : s.others t ≠ .deleted := by simp [hopened]
      refine ⟨fun hc => ?_, fun hw => ?_⟩
      · rcases h.record hc with hf | hk | hdel
        · left
          simpa [IoSys.goto, getOrCreate_some hf] using hf
        · exact .inr (.inl (getOrCreate_closed hk))
        · exact .inr (.inr (deleted_update ht hdel))
      · obtain ⟨r, hr, hcases⟩ := h.waits hw
        refine ⟨r, hr, hcases.imp_right ?_⟩
        rintro ⟨haw, hk, hf, hpast⟩
        refine ⟨haw, ?_, ?_, past_update rfl hpast⟩
        · simpa [IoSys.goto, getOrCreate_some hf] using hk
        · simpa [IoSys.goto, getOrCreate_some hf] using hf

end phases

/-! ## The retried call -/

variable [DecidableEq T]

instance (s : IoSys S F C T) : (act : IoAct S F C T) → Decidable (s.apart act)
  | .socket .. => inferInstanceAs (Decidable (s.pc.checked = false))
  | .enter | .call _ | .arm | .add _ | .yield | .resume | .disarm | .test | .getsockopt ..
  | .expire _ | .lock _ | .check _ | .set _ | .cancelEvent .. | .event .. | .wait .. | .dispatch ..
  | .resize _ | .close .. | .cancelAll .. | .del _ | .close_f _ | .get _ =>
      inferInstanceAs (Decidable True)

instance [Fintype T] (a : WaitArgs S F) (s : IoSys S F C T) :
    (act : IoAct S F C T) → Decidable (s.heard a act)
  | .close _ hooked iom =>
      inferInstanceAs (Decidable (s.pc.checked = true → hooked = true ∧ iom = true))
  | .cancelAll _ ok => inferInstanceAs (Decidable
      (s.reg.any (s.mgr.registered a.ctx a.event) = true →
        ok = true ∧ (s.mgr.epoll a.fd).isSome = true))
  | .add _ => inferInstanceAs (Decidable (∀ t, (s.others t).past = false))
  | .enter | .call _ | .arm | .yield | .resume | .disarm | .test | .getsockopt .. | .expire _
  | .lock _ | .check _ | .set _ | .cancelEvent .. | .event .. | .wait .. | .dispatch ..
  | .resize _ | .del _ | .close_f _ | .socket .. | .get _ =>
      inferInstanceAs (Decidable (s.drops _ = false))

/-- The descriptor is closed under a parked call. -/
def closedWhileParked : List (IoAct Unit Unit Unit Unit) :=
  [.enter, .call ⟨-1, .EAGAIN⟩, .arm, .add true, .yield, .close () true true, .cancelAll () true,
    .del (), .close_f ()]

/-- The number is given out again before the fiber runs. -/
def reusedWhileParked : List (IoAct Unit Unit Unit Unit) :=
  [.enter, .call ⟨-1, .EAGAIN⟩, .arm, .add true, .yield, .close () true true, .cancelAll () true,
    .del (), .close_f (), .socket () ⟨true, 0⟩ true, .get (), .resume, .disarm, .test]

/-- The retried call is made on the new descriptor, and returns what it finds
there. -/
theorem stale_retry_reusedWhileParked :
    ¬ ∀ s r s', Reach (proceed (IoSys.step recv5)) (fun _ _ => True) socket5 s → s.pc = .call →
      s.step recv5 (.call r) = some (.ok s') →
        s.enteredOn = some s.opened ∨ s'.pc = .ret (-1) (some .EBADF) := by
  intro hall
  have h : (run (guarded (proceed (IoSys.step recv5)) fun _ _ => True) socket5
      reusedWhileParked).any (fun s => decide (s.pc = .call ∧ s.enteredOn = some 0 ∧
        s.opened = 1 ∧ (s.kernel 5).isSome = true)) = true := by decide +kernel
  obtain ⟨s, hs, hand⟩ := Option.any_eq_true _ _ |>.mp h
  obtain ⟨hpc, hentered, hopened, hsome⟩ := of_decide_eq_true hand
  have hstep : s.step recv5 (.call ⟨16, .other 0⟩)
      = some (.ok { s with pc := .ret 16 (some (.other 0)) }) := by
    have hkernel : s.kernel 5 ≠ none := Option.isSome_iff_ne_none.mp hsome
    simp [IoSys.step, hkernel, hpc, callResult, recv5]
  rcases hall s _ _ (run_reach _ hs) hpc hstep with h | h
  · rw [hentered, hopened] at h
    exact absurd h (by decide)
  · exact absurd h (by simp)

/-- The fiber runs between `cancelAll` and `close_f`, and registers once more. -/
def closedAfterRetry : List (IoAct Unit Unit Unit Unit) :=
  [.enter, .call ⟨-1, .EAGAIN⟩, .arm, .add true, .yield, .close () true true, .cancelAll () true,
    .resume, .disarm, .test, .call ⟨-1, .EAGAIN⟩, .arm, .add true, .yield, .del (), .close_f ()]

/-- Nobody wakes it when the descriptor is closed. -/
theorem unheard_closedAfterRetry :
    ¬ ∀ s, Reach (proceed (IoSys.step recv5)) apart socket5 s → s.pc = .parked →
      s.kernel 5 = none → s.handed = true := by
  intro hall
  have h : (run (guarded (proceed (IoSys.step recv5)) apart) socket5 closedAfterRetry).any
      (fun s => decide (s.pc = .parked ∧ s.kernel 5 = none ∧ s.handed = false)) = true := by
    decide +kernel
  obtain ⟨s, hs, hand⟩ := Option.any_eq_true _ _ |>.mp h
  obtain ⟨hpc, hclosed, hhanded⟩ := of_decide_eq_true hand
  exact absurd ((hall s (run_reach _ hs) hpc hclosed).symm.trans hhanded) (by decide)

end IoSys

end CoLib
