/-
# `CoLib.Timer.Reports` — what `cancel`, `refresh` and `reset` report

The three calls on a timer return whether they found it armed, and users take the
answer for whether their timeout is still pending.  `reset` answers before it takes
the lock when neither the period nor the start is to change.

**Proved here.**  In every state reached, a call on a timer that was cancelled, or
whose one-shot callback was taken, returns false and changes nothing, and a call
that returns true leaves the timer in the set with the deadline it promises: except
for that early answer, which is true also for a timer that is gone.
-/
import CoLib.Timer.Deadline
import CoLib.Timer.Run

namespace CoLib.TimerManager

open Lib

variable {Cb : Type} {m m' : TimerManager Cb} {p : TimerPtr}

/-- A call on a timer. -/
inductive TimerCall where
  | cancel
  | refresh (now : Nat)
  | reset (ms : Nat) (fromNow : Bool) (now : Nat)
  deriving DecidableEq

namespace TimerCall

/-- The manager afterwards, and what is returned. -/
def exec (m : TimerManager Cb) (p : TimerPtr) : TimerCall → Option (TimerManager Cb × Bool)
  | .cancel => m.cancel p
  | .refresh now => m.refresh p now
  | .reset ms fromNow now => (m.reset p ms fromNow now).map fun r => (r.1, r.2.1)

/-- The timer `t` has become `t'`, which counts its new period from now, or from
where `t` counted the old one. -/
def Rearms (t t' : Timer Cb) : TimerCall → Prop
  | .cancel => False
  | .refresh now => t'.ms = t.ms ∧ t'.next = addWord now t.ms
  | .reset ms fromNow now =>
      t'.ms = ms ∧ t'.next = addWord (if fromNow then now else subWord t.next t.ms) ms

/-- The call asks for nothing that `t` does not have. -/
def Early (t : Timer Cb) : TimerCall → Prop
  | .reset ms fromNow _ => ms = t.ms ∧ fromNow = false
  | _ => False

/-- A timer that is not armed: nothing changes, and only an early answer is true. -/
theorem exec_unarmed {t : Timer Cb} (ht : m.heap[p]? = some t) (hcb : t.cb = none)
    (call : TimerCall) : ∃ b, call.exec m p = some (m, b) ∧ (b = true ↔ call.Early t) := by
  cases call with
  | cancel => exact ⟨false, cancel_unarmed ht hcb, iff_of_false Bool.false_ne_true id⟩
  | refresh now => exact ⟨false, refresh_unarmed ht hcb now, iff_of_false Bool.false_ne_true id⟩
  | reset ms fromNow now =>
      by_cases hsame : ms = t.ms ∧ fromNow = false
      · obtain ⟨rfl, rfl⟩ := hsame
        exact ⟨true, by rw [exec, reset_same ht]; rfl, iff_of_true rfl ⟨rfl, rfl⟩⟩
      · exact ⟨false, by rw [exec, reset_unarmed ht hcb hsame]; rfl,
          iff_of_false Bool.false_ne_true hsame⟩

/-- An addition takes a subtraction back. -/
theorem addWord_subWord {a b : Nat} (ha : a < wordSize) : addWord (subWord a b) b = a := by
  simp only [addWord, subWord, wordSize] at ha ⊢
  omega

/-- A member of the set is armed as the call says. -/
theorem exec_armed {L : TimerPtr → Prop} (h : Consistent m [] L) (hwords : m.Words)
    (hp : p ∈ m.timers) {call : TimerCall} (hcall : call ≠ .cancel) {b : Bool}
    (hexec : call.exec m p = some (m', b)) :
    p ∈ m'.timers ∧ ∃ t t', m.heap[p]? = some t ∧ m'.heap[p]? = some t' ∧ call.Rearms t t' := by
  obtain ⟨t, ht, -⟩ := (h.armed p).mpr (.inl hp)
  have hself : ∀ f : Timer Cb → Timer Cb, (m.store p f).heap[p]? = some (f t) := by
    intro f
    rw [store_self, ht]
    rfl
  cases call with
  | cancel => exact absurd rfl hcall
  | refresh now =>
      obtain ⟨l, r, -, hrun, -⟩ := refresh_armed h hp now
      obtain ⟨rfl, -⟩ := Prod.mk.inj (Option.some.inj (hrun.symm.trans hexec))
      exact ⟨List.mem_append_right l List.mem_cons_self, t, _, ht, hself _, rfl, rfl⟩
  | reset ms fromNow now =>
      by_cases hsame : ms = t.ms ∧ fromNow = false
      · obtain ⟨rfl, rfl⟩ := hsame
        rw [exec, reset_same ht] at hexec
        obtain ⟨rfl, -⟩ := Prod.mk.inj (Option.some.inj hexec)
        have hword : t.next < wordSize := hwords t (List.mem_of_getElem? ht)
        exact ⟨hp, t, t, ht, ht, rfl, (addWord_subWord hword).symm⟩
      · obtain ⟨l, r, f, -, rfl, hrun, -⟩ := reset_armed h hp ht hsame now
        rw [exec, hrun] at hexec
        obtain ⟨rfl, -⟩ := Prod.mk.inj (Option.some.inj hexec)
        exact ⟨List.mem_append_right l List.mem_cons_self, t, _, ht, hself _, rfl, rfl⟩

end TimerCall

/-! ## Whole runs -/

namespace Users

variable {s s' : Users Cb}

/-- The timer was cancelled, or its one-shot callback was taken. -/
def Gone (s : Users Cb) (p : TimerPtr) : Prop :=
  s.log.any (·.cancels p) = true ∨ s.OneShot p ∧ s.log.any (·.returns p) = true

/-- The answer of a call on `p` is true of the timer. -/
structure Truthful (s : Users Cb) (p : TimerPtr) (call : TimerCall) : Prop where
  gone : s.Gone p → call.exec s.mgr p = some (s.mgr, false)
  armed : ∀ m', call ≠ .cancel → call.exec s.mgr p = some (m', true) →
    p ∈ m'.timers ∧
      ∃ t t', s.mgr.heap[p]? = some t ∧ m'.heap[p]? = some t' ∧ call.Rearms t t'

/-- A timer held is gone exactly if it is not in the set. -/
theorem gone_iff (h : s.History) (hp : p ∈ s.held) : s.Gone p ↔ p ∉ s.mgr.timers := by
  rw [h.member p (h.wf.held p hp), Gone]
  tauto

/-- Deadlines are words in every state reached. -/
theorem words_step (h : s.mgr.Words) {op : Op Cb} (hstep : s.step op = some s') :
    s'.mgr.Words := by
  cases op with
  | addTimer ms cb recurring now addr =>
      obtain rfl := Option.some.inj hstep
      exact words_addTimer h ms cb recurring now addr
  | cancel p =>
      obtain ⟨⟨mgr, b⟩, hcall, hstep⟩ := Option.bind_eq_some_iff.mp hstep
      obtain rfl := Option.some.inj hstep
      exact (keeps_cancel hcall).words h
  | refresh p now =>
      obtain ⟨⟨mgr, b⟩, hcall, hstep⟩ := Option.bind_eq_some_iff.mp hstep
      obtain rfl := Option.some.inj hstep
      exact (keeps_refresh hcall).words h
  | reset p ms fromNow now =>
      obtain ⟨⟨mgr, b, front⟩, hcall, hstep⟩ := Option.bind_eq_some_iff.mp hstep
      obtain rfl := Option.some.inj hstep
      exact (keeps_reset hcall).words h
  | listExpiredCb now addr =>
      obtain ⟨⟨mgr, cbs⟩, hcall, hstep⟩ := Option.bind_eq_some_iff.mp hstep
      obtain rfl := Option.some.inj hstep
      exact (keeps_listExpiredCb hcall).words h
  | getNextTimer now =>
      obtain ⟨⟨mgr, d⟩, hcall, hstep⟩ := Option.bind_eq_some_iff.mp hstep
      obtain rfl := Option.some.inj hstep
      exact (keeps_getNextTimer hcall).words h
  | release p =>
      obtain rfl := Option.some.inj hstep
      exact h

theorem reach_words {now : Nat} (h : Reach step Legal (init now : Users Cb) s) : s.mgr.Words := by
  refine h.invariant (I := fun u => u.mgr.Words) ?_ ?_
  · intro t ht
    exact absurd ht List.not_mem_nil
  · intro u op u' hu _ hstep
    exact words_step hu hstep

/-- **When the answers are true.**  In every state reached and for every timer
held, a call gives a true answer unless it is a `reset` to the period the timer has,
not from now, of a timer that is gone. -/
theorem truthful_iff {now : Nat} (h : Reach step Legal (init now : Users Cb) s)
    (hp : p ∈ s.held) (call : TimerCall) :
    s.Truthful p call ↔ ¬ (s.Gone p ∧ ∃ t, s.mgr.heap[p]? = some t ∧ call.Early t) := by
  have hs := reach_history h
  obtain ⟨t, ht⟩ := hs.wf.deref hp
  rw [gone_iff hs hp]
  by_cases hmem : p ∈ s.mgr.timers
  · refine iff_of_true ?_ fun hgone => hgone.1 hmem
    exact ⟨fun hgone => absurd hmem ((gone_iff hs hp).mp hgone), fun m' hcall hexec =>
      TimerCall.exec_armed hs.wf.consistent (reach_words h) hmem hcall hexec⟩
  · have hcb : t.cb = none := by
      cases hcb : t.cb with
      | none => rfl
      | some cb => exact absurd (hs.wf.mem_of_cb ht hcb) hmem
    obtain ⟨b, hexec, hb⟩ := TimerCall.exec_unarmed ht hcb call
    have hearly : (∃ u, s.mgr.heap[p]? = some u ∧ call.Early u) ↔ b = true := by
      rw [hb]
      constructor
      · rintro ⟨u, hu, hearly⟩
        obtain rfl := Option.some.inj (hu.symm.trans ht)
        exact hearly
      · exact fun hearly => ⟨t, ht, hearly⟩
    rw [hearly]
    constructor
    · rintro htrue ⟨-, rfl⟩
      have hfalse := htrue.gone ((gone_iff hs hp).mpr hmem)
      obtain ⟨-, hb⟩ := Prod.mk.inj (Option.some.inj (hexec.symm.trans hfalse))
      exact absurd hb.symm Bool.false_ne_true
    · intro hnot
      obtain rfl : b = false := by
        cases b with
        | false => rfl
        | true => exact absurd ⟨hmem, rfl⟩ hnot
      refine ⟨fun _ => hexec, fun m' _ htrue => ?_⟩
      obtain ⟨-, hb⟩ := Prod.mk.inj (Option.some.inj (hexec.symm.trans htrue))
      exact absurd hb Bool.false_ne_true

/-- A timer is added and cancelled. -/
def cancelledOnce : List (Op Unit) :=
  [.addTimer 10 () false 5 64, .cancel 0]

/-- `reset` from now of a cancelled timer is reported to have failed. -/
theorem truthful_iff_cancelledOnce :
    ∃ s, run (guarded step Legal) (init 0) cancelledOnce = some s ∧
      s.Truthful 0 (.reset 10 true 7) := by
  have h : (run (guarded step Legal) (init 0) cancelledOnce).any
      (fun s => decide (0 ∈ s.held)) = true := by decide
  obtain ⟨s, hs, hheld⟩ := (Option.any_eq_true _ _).mp h
  replace hheld : 0 ∈ s.held := of_decide_eq_true hheld
  refine ⟨s, hs, (truthful_iff (run_reach _ hs) hheld _).mpr ?_⟩
  rintro ⟨-, t, -, hearly⟩
  exact absurd hearly.2.symm Bool.false_ne_true

/-- `reset` of a cancelled timer to the period it has is reported to have
succeeded. -/
theorem untruthful_cancelledOnce :
    ∃ s, run (guarded step Legal) (init 0) cancelledOnce = some s ∧
      0 ∈ s.held ∧ s.log.any (·.cancels 0) = true ∧
      (TimerCall.reset 10 false 7).exec s.mgr 0 = some (s.mgr, true) ∧ 0 ∉ s.mgr.timers := by
  refine ⟨_, rfl, ?_, ?_, ?_, ?_⟩
  · decide
  · decide
  · rfl
  · decide

end Users

end CoLib.TimerManager
