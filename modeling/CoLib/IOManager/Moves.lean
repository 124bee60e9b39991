/-
# `CoLib.IOManager.Moves` — what the calls on events do to the manager

Every call, however it ends, is a sequence of five moves: the kernel's interest
set changes, an event is registered on an object, an event is removed, an event
is triggered, the table grows.  `step_moves` says so for every step of every
thread, once and for all; an invariant of the manager is then a property kept by
the five moves.

`G` is a condition on the scheduler that `addEvent` finds in its thread.
-/
import CoLib.IOManager.Basic
import Mathlib

namespace CoLib

open Lib Relation

variable {S F C T : Type}

namespace IOManager

/-- The five moves. -/
inductive Move (G : Option S → Prop) : IOManager S F C → IOManager S F C → Prop
  | epoll (m : IOManager S F C) (e : Nat → Option (Events × FdContextPtr)) :
      Move G m { m with epoll := e }
  | register {m : IOManager S F C} {p : FdContextPtr} {c : FdContext S F C} {event : Event}
      {ctx : EventContext S F C} (scheduler : Option S) (waiter : F ⊕ C) :
      m.heap[p]? = some c → c.events.has event = false → c.getContext event = .ok .empty →
      G scheduler →
      ctx = { scheduler
              fiber := waiter.getLeft?.map (⟨m.nextReg, ·⟩)
              cb := waiter.getRight?.map (⟨m.nextReg, ·⟩) } →
      Move G m { m with
        heap := m.heap.set p ({ c with events := c.events.insert event }.setContext event ctx)
        pendingEventCount := m.pendingEventCount + 1
        nextReg := m.nextReg + 1
        log := m.log ++ [.stored m.nextReg scheduler waiter] }
  | remove {m : IOManager S F C} {p : FdContextPtr} {c : FdContext S F C} {event : Event}
      {ctx : EventContext S F C} :
      m.heap[p]? = some c → c.events.has event = true → c.getContext event = .ok ctx →
      Move G m { m with
        heap := m.heap.set p ({ c with events := c.events.erase event }.setContext event .empty)
        pendingEventCount := decrement m.pendingEventCount
        log := m.log ++ ctx.regs.map fun r => .removed r .delEvent }
  | trigger {m : IOManager S F C} {p : FdContextPtr} {c c' : FdContext S F C} {event : Event}
      {remover : Remover} {entries : List (Entry S F C)} :
      remover ≠ .delEvent → m.heap[p]? = some c →
      c.triggerEvent event remover = .ok (c', entries) →
      Move G m { m with
        heap := m.heap.set p c'
        pendingEventCount := decrement m.pendingEventCount
        log := m.log ++ entries }
  | resize (m : IOManager S F C) (size : Nat) : Move G m (m.contextResize size)

variable {G : Option S → Prop} {m m' : IOManager S F C}

theorem deref_ok {p : FdContextPtr} {c : FdContext S F C} :
    m.deref p = .ok c ↔ m.heap[p]? = some c := by
  rw [deref]
  cases m.heap[p]? with
  | none => simp
  | some c' => simp

theorem deref_error {p : FdContextPtr} {e : Failure} (h : m.deref p = .error e) :
    e = .nullFdContext := by
  rw [deref] at h
  split at h
  · exact absurd h (by simp)
  · exact (Except.error.inj h).symm

theorem getContext_has {c : FdContext S F C} {event : Event} (h : c.events.has event = true) :
    ∃ ctx, c.getContext event = .ok ctx := by
  cases event with
  | NONE => exact absurd h Bool.false_ne_true
  | READ => exact ⟨_, rfl⟩
  | WRITE => exact ⟨_, rfl⟩

theorem trigger_move {p : FdContextPtr} {event : Event} {remover : Remover}
    (hr : remover ≠ .delEvent) (h : m.trigger p event remover = .ok m') : Move G m m' := by
  obtain ⟨c, hc, h⟩ := bind_ok h
  obtain ⟨⟨c', entries⟩, ht, h⟩ := bind_ok h
  obtain rfl := Except.ok.inj h
  exact .trigger hr (deref_ok.mp hc) ht

theorem triggerIf_moves {mask : Bool} {p : FdContextPtr} {event : Event} {remover : Remover}
    (hr : remover ≠ .delEvent) (h : m.triggerIf mask p event remover = .ok m') :
    ReflTransGen (Move G) m m' := by
  cases mask with
  | true => exact .single (trigger_move hr h)
  | false =>
      obtain rfl := Except.ok.inj h
      exact .refl

theorem addEvent_moves {fd : Nat} {p : FdContextPtr} {event : Event} {args : AddArgs S F C}
    {ok : Bool} {rt : Int} (hG : G args.scheduler)
    (h : m.addEvent fd p event args ok = .ok (m', rt)) : ReflTransGen (Move G) m m' := by
  obtain ⟨c, hc, h⟩ := bind_ok h
  have hc := deref_ok.mp hc
  split at h
  · exact absurd h (by simp)
  · rename_i hhas
    have hhas : c.events.has event = false := by simpa using hhas
    dsimp only at h
    split at h
    · obtain ⟨rfl, -⟩ := Prod.mk.inj (Except.ok.inj h)
      exact .refl
    · rename_i epoll _
      obtain ⟨ctx, hctx, h⟩ := bind_ok h
      have hget : c.getContext event = .ok ctx := by
        cases event <;> exact hctx
      split at h
      · exact absurd h (by simp)
      · rename_i hempty
        simp only [Bool.or_eq_true, not_or, Bool.not_eq_true, Option.isSome_eq_false_iff,
          Option.isNone_iff_eq_none] at hempty
        obtain ⟨⟨hs, hf⟩, hcb⟩ := hempty
        have hget : c.getContext event = .ok .empty := by
          rw [hget]
          exact congrArg _ (by cases ctx; simp_all [EventContext.empty])
        refine (ReflTransGen.single (Move.epoll m epoll)).tail ?_
        split at h
        · rename_i cb _
          obtain ⟨rfl, -⟩ := Prod.mk.inj (Except.ok.inj h)
          exact .register (m := { m with epoll }) args.scheduler (.inr cb) hc hhas hget hG
            (by simp [hf])
        · split at h
          · obtain ⟨rfl, -⟩ := Prod.mk.inj (Except.ok.inj h)
            exact .register (m := { m with epoll }) args.scheduler (.inl args.fiber) hc hhas hget
              hG (by simp [hcb])
          · exact absurd h (by simp)

theorem delEvent_moves {fd : Nat} {p : FdContextPtr} {event : Event} {ok rt : Bool}
    (h : m.delEvent fd p event ok = .ok (m', rt)) : ReflTransGen (Move G) m m' := by
  obtain ⟨c, hc, h⟩ := bind_ok h
  have hc := deref_ok.mp hc
  split at h
  · rename_i hhas
    dsimp only at h
    split at h
    · obtain ⟨rfl, -⟩ := Prod.mk.inj (Except.ok.inj h)
      exact .refl
    · rename_i epoll _
      obtain ⟨ctx, hctx, h⟩ := bind_ok h
      obtain ⟨rfl, -⟩ := Prod.mk.inj (Except.ok.inj h)
      have hget : c.getContext event = .ok ctx := by
        cases event <;> exact hctx
      exact (ReflTransGen.single (Move.epoll m epoll)).tail
        (.remove (m := { m with epoll }) hc hhas hget)
  · obtain ⟨rfl, -⟩ := Prod.mk.inj (Except.ok.inj h)
    exact .refl

theorem cancelEvent_moves {fd : Nat} {p : FdContextPtr} {event : Event} {ok rt : Bool}
    (h : m.cancelEvent fd p event ok = .ok (m', rt)) : ReflTransGen (Move G) m m' := by
  obtain ⟨c, -, h⟩ := bind_ok h
  split at h
  · dsimp only at h
    split at h
    · obtain ⟨rfl, -⟩ := Prod.mk.inj (Except.ok.inj h)
      exact .refl
    · rename_i epoll _
      obtain ⟨m₁, ht, h⟩ := bind_ok h
      obtain ⟨rfl, -⟩ := Prod.mk.inj (Except.ok.inj h)
      exact (ReflTransGen.single (Move.epoll m epoll)).tail (trigger_move (by decide) ht)
  · obtain ⟨rfl, -⟩ := Prod.mk.inj (Except.ok.inj h)
    exact .refl

theorem cancelAll_moves {fd : Nat} {p : FdContextPtr} {ok rt : Bool}
    (h : m.cancelAll fd p ok = .ok (m', rt)) : ReflTransGen (Move G) m m' := by
  obtain ⟨c, -, h⟩ := bind_ok h
  split at h
  · obtain ⟨rfl, -⟩ := Prod.mk.inj (Except.ok.inj h)
    exact .refl
  · split at h
    · obtain ⟨rfl, -⟩ := Prod.mk.inj (Except.ok.inj h)
      exact .refl
    · rename_i epoll _
      obtain ⟨m₁, h₁, h⟩ := bind_ok h
      obtain ⟨c₁, -, h⟩ := bind_ok h
      obtain ⟨m₂, h₂, h⟩ := bind_ok h
      obtain ⟨c₂, -, h⟩ := bind_ok h
      split at h
      · obtain ⟨rfl, -⟩ := Prod.mk.inj (Except.ok.inj h)
        exact ((ReflTransGen.single (Move.epoll m epoll)).trans
          (triggerIf_moves (by decide) h₁)).trans (triggerIf_moves (by decide) h₂)
      · exact absurd h (by simp)

theorem dispatch_moves {p : FdContextPtr} {mask : Mask} {ok : Bool}
    (h : m.dispatch p mask ok = .ok m') : ReflTransGen (Move G) m m' := by
  obtain ⟨c, -, h⟩ := bind_ok h
  dsimp only at h
  split at h
  · obtain rfl := Except.ok.inj h
    exact .refl
  · split at h
    · obtain rfl := Except.ok.inj h
      exact .refl
    · rename_i epoll _
      obtain ⟨m₁, h₁, h₂⟩ := bind_ok h
      exact ((ReflTransGen.single (Move.epoll m epoll)).trans
        (triggerIf_moves (by decide) h₁)).trans (triggerIf_moves (by decide) h₂)

/-- What the five moves keep, a sequence of them keeps. -/
theorem moves_keep {I : IOManager S F C → Prop} (hmove : ∀ m m', I m → Move G m m' → I m')
    (h : ReflTransGen (Move G) m m') (hI : I m) : I m' := by
  induction h with
  | refl => exact hI
  | tail _ hm ih => exact hmove _ _ ih hm

end IOManager

namespace EventSys

open IOManager

variable {G : Option S → Prop}

/-- `addEvent` is called on a thread whose scheduler satisfies `G`. -/
def CallOk (G : Option S → Prop) : EventCall S F C → Prop
  | .addEvent _ _ args => G args.scheduler
  | _ => True

/-- The call a phase belongs to satisfies it too. -/
def PhaseOk (G : Option S → Prop) : EventPhase S F C → Prop
  | .lookup call => CallOk G call
  | .grow call => CallOk G call
  | .locked call _ => CallOk G call
  | _ => True

/-- A call that begins satisfies it. -/
def ActOk (G : Option S → Prop) : EventAct S F C T → Prop
  | .call _ call => CallOk G call
  | _ => True

theorem actOk_true (a : EventAct S F C T) : ActOk (fun _ => True) a := by
  cases a with
  | call t call => cases call <;> exact trivial
  | _ => exact trivial

theorem map_fst_ok {α β ε : Type} {x : Except ε (α × β)} {a : α}
    (h : Prod.fst <$> x = .ok a) : ∃ b, x = .ok (a, b) := by
  cases x with
  | error e => exact absurd h (by simp [Functor.map, Except.map])
  | ok r =>
      obtain rfl : r.1 = a := Except.ok.inj h
      exact ⟨r.2, rfl⟩

theorem map_fst_error {α β ε : Type} {x : Except ε (α × β)} {e : ε}
    (h : Prod.fst <$> x = .error e) : x = .error e := by
  cases x with
  | error e' => exact congrArg _ (Except.error.inj h)
  | ok r => exact absurd h (by simp [Functor.map, Except.map])

variable [DecidableEq T] {s s' : EventSys S F C T}

theorem critical_moves {m m' : IOManager S F C} {p : FdContextPtr} {ok : Bool}
    {call : EventCall S F C} (hG : CallOk G call) (h : critical m p ok call = .ok m') :
    ReflTransGen (Move G) m m' := by
  cases call with
  | addEvent fd event args =>
      obtain ⟨rt, h⟩ := map_fst_ok h
      exact addEvent_moves hG h
  | delEvent fd event =>
      obtain ⟨rt, h⟩ := map_fst_ok h
      exact delEvent_moves h
  | cancelEvent fd event =>
      obtain ⟨rt, h⟩ := map_fst_ok h
      exact cancelEvent_moves h
  | cancelAll fd =>
      obtain ⟨rt, h⟩ := map_fst_ok h
      exact cancelAll_moves h

theorem goto_phaseOk {t : T} {ph : EventPhase S F C} (hs : ∀ u, PhaseOk G (s.phase u))
    (hph : PhaseOk G ph) (u : T) : PhaseOk G ((s.goto t ph).phase u) := by
  by_cases hu : u = t
  · subst hu
    simpa [goto] using hph
  · simpa [goto, hu] using hs u

/-- The steps, by what they need and what they change. -/
inductive Does (s : EventSys S F C T) : EventAct S F C T → EventSys S F C T → Prop
  | call (t : T) (call : EventCall S F C) : s.phase t = .outside →
      Does s (.call t call) (s.goto t (.lookup call))
  | found (t : T) (call : EventCall S F C) (p : FdContextPtr) : s.phase t = .lookup call →
      s.mgr.fdContexts[call.fd]? = some p → Does s (.lookup t) (s.goto t (.locked call p))
  | missing (t : T) (call : EventCall S F C) (ph : EventPhase S F C) : s.phase t = .lookup call →
      ph = .grow call ∨ ph = .outside → Does s (.lookup t) (s.goto t ph)
  | grow (t : T) (call : EventCall S F C) (p : FdContextPtr) : s.phase t = .grow call →
      (s.mgr.contextResize (call.fd * 3 / 2)).fdContexts[call.fd]? = some p →
      Does s (.grow t)
        ({ s with mgr := s.mgr.contextResize (call.fd * 3 / 2) }.goto t (.locked call p))
  | enter (t : T) (ok : Bool) (call : EventCall S F C) (p : FdContextPtr)
      (m : IOManager S F C) : s.phase t = .locked call p → critical s.mgr p ok call = .ok m →
      Does s (.enter t ok) ({ s with mgr := m }.goto t .outside)
  | wait (t : T) (events : List (FdContextPtr × Mask)) : s.phase t = .outside →
      Does s (.wait t events) (s.goto t (.dispatch events))
  | dispatched (t : T) (ok : Bool) : s.phase t = .dispatch [] →
      Does s (.dispatch t ok) (s.goto t .outside)
  | dispatch (t : T) (ok : Bool) (p : FdContextPtr) (mask : Mask)
      (events : List (FdContextPtr × Mask)) (m : IOManager S F C) :
      s.phase t = .dispatch ((p, mask) :: events) → s.mgr.dispatch p mask ok = .ok m →
      Does s (.dispatch t ok) ({ s with mgr := m }.goto t (.dispatch events))
  | close (fd : Nat) : Does s (.close fd)
      { s with mgr := { s.mgr with epoll := Function.update s.mgr.epoll fd none } }

/-- Every step is in the list. -/
theorem step_does {a : EventAct S F C T} (h : s.step a = some (.ok s')) : Does s a s' := by
  cases a with
  | call t call =>
      simp only [step] at h
      split at h
      · obtain rfl := Except.ok.inj (Option.some.inj h)
        exact .call t call ‹_›
      · cases h
  | lookup t =>
      simp only [step] at h
      split at h
      · rename_i call hph
        split at h
        · obtain rfl := Except.ok.inj (Option.some.inj h)
          exact .found t _ _ hph ‹_›
        · obtain rfl := Except.ok.inj (Option.some.inj h)
          exact .missing t _ _ hph (.inl rfl)
        · obtain rfl := Except.ok.inj (Option.some.inj h)
          exact .missing t _ _ hph (.inr rfl)
      · cases h
  | grow t =>
      simp only [step] at h
      split at h
      · rename_i call hph
        split at h
        · obtain rfl := Except.ok.inj (Option.some.inj h)
          exact .grow t _ _ hph ‹_›
        · cases h
      · cases h
  | enter t ok =>
      simp only [step] at h
      split at h
      · obtain ⟨m, hm, h⟩ := bind_ok (Option.some.inj h)
        obtain rfl := Except.ok.inj h
        exact .enter t ok _ _ m ‹_› hm
      · cases h
  | wait t events =>
      simp only [step] at h
      split at h
      · split at h
        · obtain rfl := Except.ok.inj (Option.some.inj h)
          exact .wait t events ‹_›
        · cases h
      · cases h
  | dispatch t ok =>
      simp only [step] at h
      split at h
      · obtain rfl := Except.ok.inj (Option.some.inj h)
        exact .dispatched t ok ‹_›
      · obtain ⟨m, hm, h⟩ := bind_ok (Option.some.inj h)
        obtain rfl := Except.ok.inj h
        exact .dispatch t ok _ _ _ m ‹_› hm
      · cases h
  | close fd =>
      obtain rfl := Except.ok.inj (Option.some.inj h)
      exact .close fd

/-- Every step is a sequence of moves. -/
theorem step_moves {a : EventAct S F C T} (hs : ∀ u, PhaseOk G (s.phase u)) (ha : ActOk G a)
    (h : s.step a = some (.ok s')) :
    ReflTransGen (Move G) s.mgr s'.mgr ∧ ∀ u, PhaseOk G (s'.phase u) := by
  cases step_does h with
  | call t call hph => exact ⟨.refl, goto_phaseOk hs ha⟩
  | found t call p hph hp =>
      have hcall := hs t
      rw [hph] at hcall
      exact ⟨.refl, goto_phaseOk hs hcall⟩
  | missing t call ph hph hnext =>
      have hcall := hs t
      rw [hph] at hcall
      refine ⟨.refl, goto_phaseOk hs ?_⟩
      rcases hnext with rfl | rfl
      · exact hcall
      · exact trivial
  | grow t call p hph hp =>
      have hcall := hs t
      rw [hph] at hcall
      exact ⟨.single (.resize _ _), goto_phaseOk hs hcall⟩
  | enter t ok call p m hph hm =>
      have hcall := hs t
      rw [hph] at hcall
      exact ⟨critical_moves hcall hm, goto_phaseOk hs trivial⟩
  | wait t events hph => exact ⟨.refl, goto_phaseOk hs trivial⟩
  | dispatched t ok hph => exact ⟨.refl, goto_phaseOk hs trivial⟩
  | dispatch t ok p mask events m hph hm => exact ⟨dispatch_moves hm, goto_phaseOk hs trivial⟩
  | close fd => exact ⟨.single (.epoll _ _), hs⟩

/-- A step fails in a critical section or in the handling of an `epoll_event`
(or where the table was not grown enough). -/
theorem step_error_cases {a : EventAct S F C T} {e : Failure} (h : s.step a = some (.error e)) :
    e = .nullFdContext ∨
    (∃ t ok call p, a = .enter t ok ∧ s.phase t = .locked call p ∧
      critical s.mgr p ok call = .error e) ∨
    ∃ t ok p mask events, a = .dispatch t ok ∧ s.phase t = .dispatch ((p, mask) :: events) ∧
      s.mgr.dispatch p mask ok = .error e := by
  cases a with
  | call t call => simp only [step] at h; split at h <;> exact absurd h (by simp)
  | lookup t =>
      simp only [step] at h
      split at h
      · split at h <;> exact absurd h (by simp)
      · exact absurd h (by simp)
  | grow t =>
      simp only [step] at h
      split at h
      · split at h
        · exact absurd h (by simp)
        · exact .inl (Except.error.inj (Option.some.inj h)).symm
      · exact absurd h (by simp)
  | enter t ok =>
      simp only [step] at h
      split at h
      · rename_i call p hph
        rcases bind_error (Option.some.inj h) with h | ⟨_, -, h⟩
        · exact .inr (.inl ⟨t, ok, call, p, rfl, hph, h⟩)
        · exact absurd h (by simp)
      · exact absurd h (by simp)
  | wait t events =>
      simp only [step] at h
      split at h
      · split at h <;> exact absurd h (by simp)
      · exact absurd h (by simp)
  | dispatch t ok =>
      simp only [step] at h
      split at h
      · exact absurd h (by simp)
      · rename_i p mask events hph
        rcases bind_error (Option.some.inj h) with h | ⟨_, -, h⟩
        · exact .inr (.inr ⟨t, ok, p, mask, events, rfl, hph, h⟩)
        · exact absurd h (by simp)
      · exact absurd h (by simp)
  | close fd => exact absurd h (by simp [step])

/-- What the initial manager has and the five moves keep, every state has that
is reached with calls that satisfy `G`. -/
theorem reach_mgr {I : IOManager S F C → Prop} {guard : EventSys S F C T → EventAct S F C T → Prop}
    (h : Reach (proceed step) guard init s) (hguard : ∀ s a, guard s a → ActOk G a)
    (hinit : I .create) (hmove : ∀ m m', I m → Move G m m' → I m') : I s.mgr := by
  have hinv : I s.mgr ∧ ∀ u, PhaseOk G (s.phase u) := by
    refine h.invariant (I := fun s => I s.mgr ∧ ∀ u, PhaseOk G (s.phase u)) ?_ ?_
    · exact ⟨hinit, fun _ => trivial⟩
    · rintro u a u' ⟨hI, hph⟩ ha hstep
      obtain ⟨hmoves, hph'⟩ := step_moves hph (hguard u a ha) (proceed_eq_some.mp hstep)
      exact ⟨moves_keep hmove hmoves hI, hph'⟩
  exact hinv.1

end EventSys

end CoLib
