/-
# `CoLib.IOManager.Counter` — the pending events are counted

`m_pendingEventCount` is the number of bits set in all `FdContext::events`
whenever no critical section is open.  The moves keep it so without any
condition: a trigger whose bit is not set fails its assertion before the
decrement.

Whether that assertion can fail is another matter.  `idle` widens a mask with
`EPOLLERR` or `EPOLLHUP` to both events and then triggers all of them as soon as
one is registered, and it does the same when another thread has removed one of
two events after `epoll_wait` returned.  `registered` is the exact condition
under which a dispatched mask asks for registered events only.
-/
import CoLib.IOManager.Moves

namespace CoLib

open Lib

variable {S F C T : Type}

namespace FdContext

@[simp] theorem events_setContext (c : FdContext S F C) (event : Event)
    (ctx : EventContext S F C) : (c.setContext event ctx).events = c.events := by
  cases event <;> rfl

/-- `triggerEvent` that returns has cleared its bit, which was set, and emptied
the context. -/
theorem triggerEvent_ok {c c' : FdContext S F C} {event : Event} {remover : Remover}
    {entries : List (Entry S F C)} (h : c.triggerEvent event remover = .ok (c', entries)) :
    c.events.has event = true ∧ ∃ ctx s, c.getContext event = .ok ctx ∧
      ctx.scheduler = some s ∧
      c' = { c with events := c.events.erase event }.setContext event
        { (handOver ctx s).1 with scheduler := none } ∧
      entries = (ctx.regs.map fun r => .removed r remover) ++ (handOver ctx s).2 := by
  rw [triggerEvent] at h
  split at h
  · rename_i hhas
    obtain ⟨ctx, hctx, h⟩ := bind_ok h
    have hget : c.getContext event = .ok ctx := by
      cases event <;> exact hctx
    split at h
    · exact absurd h (by simp)
    · rename_i s hs
      obtain ⟨rfl, rfl⟩ := Prod.mk.inj (Except.ok.inj h)
      exact ⟨hhas, ctx, s, hget, hs, rfl, rfl⟩
  · exact absurd h (by simp)

/-- The assertion of `triggerEvent` fails only for a bit that is not set. -/
theorem triggerEvent_error {c : FdContext S F C} {event : Event} {remover : Remover}
    (h : c.triggerEvent event remover = .error .triggerEvent) : c.events.has event = false := by
  by_contra hhas
  have hhas : c.events.has event = true := by simpa using hhas
  obtain ⟨ctx, hctx⟩ := IOManager.getContext_has hhas
  have hget : ({ c with events := c.events.erase event } : FdContext S F C).getContext event
      = .ok ctx := by
    cases event <;> exact hctx
  rw [triggerEvent, if_pos hhas] at h
  rcases bind_error h with h | ⟨ctx', -, h⟩
  · rw [hget] at h
    exact absurd h (by simp)
  · split at h <;> exact absurd h (by simp)

end FdContext

namespace IOManager

variable {m m' : IOManager S F C}

/-- The number of bits set in all `FdContext::events`. -/
def bits (m : IOManager S F C) : Nat :=
  tally (fun c => c.events.bits) m.heap

/-- The count is the number of bits. -/
def Counted (m : IOManager S F C) : Prop :=
  m.pendingEventCount = m.bits

theorem bits_set {p : FdContextPtr} {c : FdContext S F C} (c' : FdContext S F C)
    (h : m.heap[p]? = some c) :
    tally (fun c => c.events.bits) (m.heap.set p c') + c.events.bits = m.bits + c'.events.bits :=
  tally_set c' h

theorem decrement_succ (n : Nat) : decrement (n + 1) = n := by
  simp [decrement]

theorem counted_erase {p : FdContextPtr} {c c' : FdContext S F C} {event : Event} (h : m.Counted)
    (hc : m.heap[p]? = some c) (hhas : c.events.has event = true)
    (hc' : c'.events = c.events.erase event) :
    decrement m.pendingEventCount = tally (fun c => c.events.bits) (m.heap.set p c') := by
  have hset := bits_set c' hc
  have hone := Events.bits_erase hhas
  rw [hc'] at hset
  rw [h, show m.bits = tally (fun c => c.events.bits) (m.heap.set p c') + 1 by omega,
    decrement_succ]

theorem counted_create : (create : IOManager S F C).Counted := by
  refine (tally_eq_zero ?_).symm
  intro c hc
  simp only [create, contextResize, List.nil_append, List.mem_map] at hc
  obtain ⟨i, -, rfl⟩ := hc
  rfl

theorem counted_move {G : Option S → Prop} (h : m.Counted) (hm : Move G m m') : m'.Counted := by
  cases hm with
  | epoll e => exact h
  | @register p c event ctx scheduler waiter hc hhas hget hG hctx =>
      have hnone : event ≠ .NONE := by
        rintro rfl
        exact absurd hget (by simp [FdContext.getContext])
      have hset := bits_set
        (({ c with events := c.events.insert event } : FdContext S F C).setContext event ctx) hc
      rw [FdContext.events_setContext] at hset
      have hone := Events.bits_insert hnone hhas
      have hcount : m.pendingEventCount = m.bits := h
      simp only [Counted, bits] at hset hone hcount ⊢
      omega
  | remove hc hhas hget => exact counted_erase h hc hhas (FdContext.events_setContext ..)
  | trigger hr hc ht =>
      obtain ⟨hhas, ctx, s, -, -, rfl, -⟩ := FdContext.triggerEvent_ok ht
      exact counted_erase h hc hhas (FdContext.events_setContext ..)
  | resize size =>
      have hnew : tally (fun c : FdContext S F C => c.events.bits)
          ((List.range (size - m.fdContexts.length)).map
            fun i => .new (m.fdContexts.length + i)) = 0 := by
        refine tally_eq_zero ?_
        intro c hc
        obtain ⟨i, -, rfl⟩ := List.mem_map.mp hc
        rfl
      simp only [Counted, bits, contextResize, tally_append, hnew, Nat.add_zero]
      exact h

/-! ## The assertion of `triggerEvent` -/

theorem trigger_error {p : FdContextPtr} {c : FdContext S F C} {event : Event} {remover : Remover}
    (hc : m.heap[p]? = some c) (h : m.trigger p event remover = .error .triggerEvent) :
    c.events.has event = false := by
  rcases bind_error h with h | ⟨c', hc', h⟩
  · exact absurd (deref_error h) (by decide)
  · obtain rfl : c = c' := Option.some.inj (hc.symm.trans (deref_ok.mp hc'))
    rcases bind_error h with h | ⟨⟨c₁, entries⟩, -, h⟩
    · exact FdContext.triggerEvent_error h
    · exact absurd h (by simp)

theorem triggerIf_error {p : FdContextPtr} {c : FdContext S F C} {event : Event} {remover : Remover}
    {mask : Bool} (hc : m.heap[p]? = some c)
    (h : m.triggerIf mask p event remover = .error .triggerEvent) :
    mask = true ∧ c.events.has event = false := by
  cases mask with
  | true => exact ⟨rfl, trigger_error hc h⟩
  | false => exact absurd h (by simp [triggerIf])

/-- What `triggerIf` leaves of the object. -/
theorem triggerIf_heap {p : FdContextPtr} {c : FdContext S F C} {event : Event} {remover : Remover}
    {mask : Bool} (hc : m.heap[p]? = some c) (h : m.triggerIf mask p event remover = .ok m') :
    ∃ c', m'.heap[p]? = some c' ∧ (mask = true → c.events.has event = true) ∧
      c'.events = if mask then c.events.erase event else c.events := by
  cases mask with
  | false =>
      obtain rfl := Except.ok.inj h
      exact ⟨c, hc, fun hf => absurd hf Bool.false_ne_true, rfl⟩
  | true =>
      obtain ⟨c₀, hc₀, h⟩ := bind_ok h
      obtain rfl : c = c₀ := Option.some.inj (hc.symm.trans (deref_ok.mp hc₀))
      obtain ⟨⟨c', entries⟩, ht, h⟩ := bind_ok h
      obtain rfl := Except.ok.inj h
      obtain ⟨hhas, ctx, s, -, -, rfl, -⟩ := FdContext.triggerEvent_ok ht
      have hlt := (List.getElem?_eq_some_iff.mp hc).1
      exact ⟨_, List.getElem?_set_self hlt, fun _ => hhas, FdContext.events_setContext ..⟩

theorem cancelEvent_error {fd : Nat} {p : FdContextPtr} {event : Event} {ok : Bool} :
    m.cancelEvent fd p event ok ≠ .error .triggerEvent := by
  intro h
  rcases bind_error h with h | ⟨c, hc, h⟩
  · exact absurd (deref_error h) (by decide)
  · have hc := deref_ok.mp hc
    split at h
    · rename_i hhas
      dsimp only at h
      split at h
      · exact absurd h (by simp)
      · rename_i epoll _
        rcases bind_error h with h | ⟨_, -, h⟩
        · have := trigger_error (m := { m with epoll }) hc h
          rw [hhas] at this
          exact absurd this (by simp)
        · exact absurd h (by simp)
    · exact absurd h (by simp)

theorem cancelAll_error {fd : Nat} {p : FdContextPtr} {ok : Bool} :
    m.cancelAll fd p ok ≠ .error .triggerEvent := by
  intro h
  rcases bind_error h with h | ⟨c, hc, h⟩
  · exact absurd (deref_error h) (by decide)
  · have hc := deref_ok.mp hc
    split at h
    · exact absurd h (by simp)
    · split at h
      · exact absurd h (by simp)
      · rename_i epoll _
        rcases bind_error h with h | ⟨m₁, -, h⟩
        · obtain ⟨hread, hclear⟩ := triggerIf_error (m := { m with epoll }) hc h
          exact absurd (hread.symm.trans hclear) (by simp)
        · rcases bind_error h with h | ⟨c₁, hc₁, h⟩
          · exact absurd (deref_error h) (by decide)
          · rcases bind_error h with h | ⟨m₂, -, h⟩
            · obtain ⟨hwrite, hclear⟩ := triggerIf_error (deref_ok.mp hc₁) h
              exact absurd (hwrite.symm.trans hclear) (by simp)
            · rcases bind_error h with h | ⟨c₂, -, h⟩
              · exact absurd (deref_error h) (by decide)
              · split at h <;> exact absurd h (by simp)

theorem addEvent_error {fd : Nat} {p : FdContextPtr} {event : Event} {args : AddArgs S F C}
    {ok : Bool} : m.addEvent fd p event args ok ≠ .error .triggerEvent := by
  intro h
  rcases bind_error h with h | ⟨c, -, h⟩
  · exact absurd (deref_error h) (by decide)
  · split at h
    · exact absurd h (by simp)
    · dsimp only at h
      split at h
      · exact absurd h (by simp)
      · rcases bind_error h with h | ⟨ctx, -, h⟩
        · cases event <;> exact absurd h (by simp [FdContext.getContext])
        · split at h
          · exact absurd h (by simp)
          · split at h
            · exact absurd h (by simp)
            · split at h <;> exact absurd h (by simp)

theorem delEvent_error {fd : Nat} {p : FdContextPtr} {event : Event} {ok : Bool} :
    m.delEvent fd p event ok ≠ .error .triggerEvent := by
  intro h
  rcases bind_error h with h | ⟨c, -, h⟩
  · exact absurd (deref_error h) (by decide)
  · split at h
    · dsimp only at h
      split at h
      · exact absurd h (by simp)
      · rcases bind_error h with h | ⟨ctx, -, h⟩
        · cases event <;> exact absurd h (by simp [FdContext.getContext])
        · exact absurd h (by simp)
    · exact absurd h (by simp)

/-- The mask asks for nothing registered, or for registered events only, or the
kernel refuses the change. -/
def asksRegistered (m : IOManager S F C) (p : FdContextPtr) (mask : Mask) (ok : Bool) : Bool :=
  match m.heap[p]? with
  | none => true
  | some c =>
      let real := realEvents mask
      let leftEvents := c.events.diff real
      let op := if leftEvents = .none then CtlOp.DEL else CtlOp.MOD
      c.events.inter real == .none || c.events.inter real == real ||
        (m.epollCtl op c.fd leftEvents p ok).isNone

/-- `idle` fails the assertion of `triggerEvent` only on a mask that asks for
more. -/
theorem dispatch_error {p : FdContextPtr} {mask : Mask} {ok : Bool}
    (hreg : m.asksRegistered p mask ok = true) :
    m.dispatch p mask ok ≠ .error .triggerEvent := by
  intro h
  rcases bind_error h with h | ⟨c, hc, h⟩
  · exact absurd (deref_error h) (by decide)
  · have hc := deref_ok.mp hc
    dsimp only at h
    split at h
    · exact absurd h (by simp)
    · rename_i hsome
      split at h
      · exact absurd h (by simp)
      · rename_i epoll hctl
        have hall : c.events.inter (realEvents mask) = realEvents mask := by
          simpa [asksRegistered, hc, hsome, hctl] using hreg
        have hread : (realEvents mask).read = true → c.events.read = true := by
          intro hr
          have := congrArg Events.read hall
          simpa [Events.inter, hr] using this
        have hwrite : (realEvents mask).write = true → c.events.write = true := by
          intro hw
          have := congrArg Events.write hall
          simpa [Events.inter, hw] using this
        rcases bind_error h with h | ⟨m₁, h₁, h⟩
        · obtain ⟨hr, hclear⟩ := triggerIf_error (m := { m with epoll }) hc h
          exact absurd ((hread hr).symm.trans hclear) (by simp)
        · obtain ⟨c₁, hc₁, -, hev⟩ := triggerIf_heap (m := { m with epoll }) hc h₁
          obtain ⟨hw, hclear⟩ := triggerIf_error hc₁ h
          have hkeep : c₁.events.has .WRITE = c.events.has .WRITE := by
            rw [hev]
            split <;> rfl
          exact absurd ((hwrite hw).symm.trans (hkeep.symm.trans hclear)) (by simp)

/-- On such a mask the process ends. -/
theorem dispatch_fails {p : FdContextPtr} {mask : Mask} {ok : Bool}
    (hreg : m.asksRegistered p mask ok = false) : ∃ e, m.dispatch p mask ok = .error e := by
  cases h : m.dispatch p mask ok with
  | error e => exact ⟨e, rfl⟩
  | ok m' =>
      exfalso
      obtain ⟨c, hc, h⟩ := bind_ok h
      have hc := deref_ok.mp hc
      simp only [asksRegistered, hc, Bool.or_eq_false_iff, beq_eq_false_iff_ne] at hreg
      obtain ⟨⟨hsome, hall⟩, hctl⟩ := hreg
      dsimp only at h
      rw [if_neg hsome] at h
      split at h
      · rename_i hnone
        rw [hnone] at hctl
        exact absurd hctl (by simp)
      · rename_i epoll _
        obtain ⟨m₁, h₁, h₂⟩ := bind_ok h
        obtain ⟨c₁, hc₁, hread, hev⟩ := triggerIf_heap (m := { m with epoll }) hc h₁
        obtain ⟨c₂, -, hwrite, -⟩ := triggerIf_heap hc₁ h₂
        have hkeep : c₁.events.has .WRITE = c.events.has .WRITE := by
          rw [hev]
          split <;> rfl
        -- both triggers went through, so every event asked for was registered
        refine hall ?_
        have hr : (c.events.read && (realEvents mask).read) = (realEvents mask).read := by
          cases hb : (realEvents mask).read with
          | false => exact Bool.and_false _
          | true => exact (Bool.and_true _).trans (hread hb)
        have hw : (c.events.write && (realEvents mask).write) = (realEvents mask).write := by
          cases hb : (realEvents mask).write with
          | false => exact Bool.and_false _
          | true => exact (Bool.and_true _).trans (hkeep.symm.trans (hwrite hb))
        exact congrArg₂ Events.mk hr hw

end IOManager

namespace EventSys

open IOManager

variable [DecidableEq T] {s : EventSys S F C T}

/-- A dispatched mask asks for registered events only. -/
def registered (s : EventSys S F C T) : EventAct S F C T → Bool
  | .dispatch t ok =>
      match s.phase t with
      | .dispatch ((p, mask) :: _) => s.mgr.asksRegistered p mask ok
      | _ => true
  | _ => true

theorem critical_error {m : IOManager S F C} {p : FdContextPtr} {ok : Bool}
    {call : EventCall S F C} : critical m p ok call ≠ .error .triggerEvent := by
  intro h
  cases call with
  | addEvent fd event args => exact addEvent_error (map_fst_error h)
  | delEvent fd event => exact delEvent_error (map_fst_error h)
  | cancelEvent fd event => exact cancelEvent_error (map_fst_error h)
  | cancelAll fd => exact cancelAll_error (map_fst_error h)

/-- A step on registered events fails no assertion of `triggerEvent`. -/
theorem step_error {a : EventAct S F C T} (ha : s.registered a = true) :
    s.step a ≠ some (.error .triggerEvent) := by
  intro h
  rcases step_error_cases h with he | ⟨t, ok, call, p, -, -, h⟩ |
    ⟨t, ok, p, mask, events, rfl, hph, h⟩
  · exact absurd he (by decide)
  · exact critical_error h
  · simp only [registered, hph] at ha
    exact dispatch_error ha h

theorem step_fails {a : EventAct S F C T} (ha : s.registered a = false) :
    ∃ e, s.step a = some (.error e) := by
  cases a with
  | dispatch t ok =>
      simp only [registered] at ha
      split at ha
      · rename_i p mask events hph
        obtain ⟨e, he⟩ := dispatch_fails ha
        exact ⟨e, by simp only [step, hph, he]; rfl⟩
      · exact absurd ha (by simp)
  | _ => exact absurd ha (by simp [registered])

/-- **The pending events are counted.**  In every run in which `idle` is given
masks that ask for registered events only, the counter is the number of bits
set, so it never wraps, and no step fails the assertion of `triggerEvent`.  A
step on any other mask ends the process. -/
theorem pendingEventCount_eq_bits
    (h : Reach (proceed step) (fun s a => s.registered a = true) (init : EventSys S F C T) s) :
    s.mgr.pendingEventCount = s.mgr.bits ∧
      ∀ a, (s.registered a = true → s.step a ≠ some (.error .triggerEvent)) ∧
        (s.registered a = false → ∃ e, s.step a = some (.error e)) := by
  refine ⟨?_, fun a => ⟨step_error, step_fails⟩⟩
  exact reach_mgr (G := fun _ => True) (I := Counted) h (fun _ a _ => actOk_true a)
    counted_create fun _ _ => counted_move

/-- One thread waits for reading on descriptor 5; then it is told of a hang-up. -/
def hangUp : List (EventAct Unit Unit Unit Unit) :=
  [.call () (.addEvent 5 .READ ⟨some (), some (), (), true⟩), .lookup (), .enter () true,
    .wait () [(5, ⟨false, false, false, true⟩)]]

/-- A hang-up on a descriptor registered for reading fails the assertion. -/
theorem triggerEvent_assertion_fails :
    ¬ ∀ (s : EventSys Unit Unit Unit Unit) (a : EventAct Unit Unit Unit Unit),
      Reach (proceed step) (fun _ _ => True) init s → s.step a ≠ some (.error .triggerEvent) := by
  intro h
  obtain ⟨s, hrun, hstep⟩ : ∃ s, run (guarded (proceed step) fun _ _ => True) init hangUp = some s ∧
      s.step (.dispatch () true) = some (.error .triggerEvent) := ⟨_, rfl, rfl⟩
  exact h s _ (run_reach hangUp hrun) hstep

/-- The same thread, told that it can read. -/
theorem pendingEventCount_eq_bits_readable :
    ∃ s, run (guarded (proceed step) fun s a => s.registered a = true) init
        (hangUp.take 3 ++ [.wait () [(5, ⟨true, false, false, false⟩)], .dispatch () true]) =
          some s ∧
      s.mgr.pendingEventCount = s.mgr.bits := by
  obtain ⟨s, hrun⟩ : ∃ s, run (guarded (proceed step) fun s a => s.registered a = true) init
      (hangUp.take 3 ++ [.wait () [(5, ⟨true, false, false, false⟩)], .dispatch () true])
      = some s := ⟨_, rfl⟩
  exact ⟨s, hrun, (pendingEventCount_eq_bits (run_reach _ hrun)).1⟩

end EventSys

end CoLib
