/-
# `CoLib.Hook.Woken` — who wakes a waiting call

A call that has registered its fiber is woken when somebody else triggers the event:
`idle`, when the kernel has reported it, or a cancellation.  `wakes` is the condition
under which a step of others does so, read off the state before the step, and `drops`
the condition under which one removes the registration and wakes nobody.

**Proved here.**  Others hand the fiber over only in a step that `wakes`
(`Others.hands`); and unless a step `drops` the registration, its fiber waits in the
context of the descriptor or has been handed over (`Others.kept`).
-/
import CoLib.Hook.Registered

namespace CoLib

open Lib Relation

variable {S F C T : Type}

namespace IOManager

variable {m m' : IOManager S F C} {p q : FdContextPtr} {event other : Event} {r : Nat}

/-- A fiber waits for `event` on `*p` under the number `r`. -/
def Awaits (m : IOManager S F C) (p : FdContextPtr) (event : Event) (r : Nat) : Prop :=
  ∃ c ctx, m.heap[p]? = some c ∧ c.events.has event = true ∧ c.getContext event = .ok ctx ∧
    ctx.fiber.map Waiter.reg = some r ∧ ctx.cb = none

/-- The fiber of registration `r` is not lost: it waits, or has been handed over. -/
def Kept (m : IOManager S F C) (p : FdContextPtr) (event : Event) (r : Nat) : Prop :=
  m.Awaits p event r ∨ m.Handed r

theorem Awaits.waiting (h : m.Awaits p event r) : m.waiting p event = some r := by
  obtain ⟨c, ctx, hc, hhas, hget, hfiber, -⟩ := h
  rw [IOManager.waiting, hc, Option.bind_some, FdContext.waiting, hhas, hget]
  exact hfiber

theorem Awaits.registered (h : m.Awaits p event r) : m.registered p event r = true := by
  obtain ⟨c, ctx, hc, hhas, hget, hfiber, -⟩ := h
  refine registered_iff.mpr ⟨c, ctx, hc, hhas, hget, ?_⟩
  simp [EventContext.regs, hfiber]

/-- Assigning another bit leaves the fiber where it is. -/
theorem awaits_assign {c : FdContext S F C} {events : Events} {ctx : EventContext S F C}
    (hc : m.heap[q]? = some c)
    (hheap : m'.heap = m.heap.set q (({ c with events } : FdContext S F C).setContext other ctx))
    (hother : ∀ ev, ev ≠ other → events.has ev = c.events.has ev)
    (hne : ¬ (p = q ∧ event = other)) (h : m.Awaits p event r) : m'.Awaits p event r := by
  obtain ⟨c₀, ctx₀, hc₀, hhas, hget, hfiber⟩ := h
  by_cases hpq : p = q
  · subst hpq
    obtain rfl := Option.some.inj (hc.symm.trans hc₀)
    have hev : event ≠ other := fun hev => hne ⟨rfl, hev⟩
    refine ⟨({ c with events } : FdContext S F C).setContext other ctx, ctx₀, ?_, ?_, ?_, hfiber⟩
    · rw [hheap, List.getElem?_set_self (List.getElem?_eq_some_iff.mp hc).1]
    · rw [FdContext.events_setContext, hother event hev]
      exact hhas
    · cases event <;> cases other <;> first | exact hget | exact absurd rfl hev
  · refine ⟨c₀, ctx₀, ?_, hhas, hget, hfiber⟩
    rw [hheap, List.getElem?_set_ne (Ne.symm hpq), hc₀]

/-- What `triggerEvent` takes out of a context it hands over. -/
theorem trigger_kept {remover : Remover} (hr : remover ≠ .delEvent)
    (h : m.trigger q other remover = .ok m') (hk : m.Kept p event r) : m'.Kept p event r := by
  rcases hk with hw | hh
  · obtain ⟨c, hc, h⟩ := bind_ok h
    have hc := deref_ok.mp hc
    obtain ⟨⟨c', entries⟩, htrig, h⟩ := bind_ok h
    obtain rfl := Except.ok.inj h
    obtain ⟨-, ctx, s, hget, -, rfl, rfl⟩ := FdContext.triggerEvent_ok htrig
    by_cases hsame : p = q ∧ event = other
    · obtain ⟨rfl, rfl⟩ := hsame
      obtain ⟨c₀, ctx₀, hc₀, -, hget₀, hfiber, hcb⟩ := hw
      obtain rfl := Option.some.inj (hc.symm.trans hc₀)
      obtain rfl := Except.ok.inj (hget.symm.trans hget₀)
      obtain ⟨w, hw, rfl⟩ := Option.map_eq_some_iff.mp hfiber
      right
      rw [Handed, List.any_append, List.any_append]
      simp [FdContext.handOver, hcb, hw, Entry.hands]
    · exact .inl (awaits_assign hc rfl (fun ev hne => Events.has_erase_ne c.events hne) hsame hw)
  · exact .inr (handed_move hh (trigger_move (G := fun _ => True) hr h))

theorem triggerIf_kept {mask : Bool} {remover : Remover} (hr : remover ≠ .delEvent)
    (h : m.triggerIf mask q other remover = .ok m') (hk : m.Kept p event r) :
    m'.Kept p event r := by
  cases mask with
  | true => exact trigger_kept hr h hk
  | false =>
      obtain rfl := Except.ok.inj h
      exact hk

/-- What `addEvent` stores, it stores where nothing is. -/
theorem addEvent_kept {fd : Nat} {args : AddArgs S F C} {ok : Bool} {rt : Int}
    (h : m.addEvent fd q other args ok = .ok (m', rt)) (hk : m.Kept p event r) :
    m'.Kept p event r := by
  refine hk.imp (fun hw => ?_) fun hh =>
    handed_moves hh (addEvent_moves (G := fun _ => True) trivial h)
  rcases addEvent_stores h with ⟨rfl, -⟩ | ⟨c, ctx, waiter, hc, hhas, hheap, -⟩
  · exact hw
  · refine awaits_assign hc hheap (fun ev hne => Events.has_insert_ne c.events hne) ?_ hw
    rintro ⟨rfl, rfl⟩
    obtain ⟨c₀, ctx₀, hc₀, hhas₀, -⟩ := hw
    obtain rfl := Option.some.inj (hc.symm.trans hc₀)
    exact absurd (hhas₀.symm.trans hhas) (by decide)

/-- A fiber that `addEvent` has stored waits. -/
theorem addEvent_awaits {fd : Nat} {args : AddArgs S F C} {ok : Bool} (hcb : args.cb = none)
    (h : m.addEvent fd p event args ok = .ok (m', 0)) : m'.Awaits p event m.nextReg := by
  rcases addEvent_stores h with ⟨-, hrt⟩ | ⟨c, ctx, waiter, hc, -, hheap, -, hfiber, hne, -⟩
  · cases hrt
  obtain ⟨hfiber, hnone⟩ := hfiber hcb
  refine ⟨({ c with events := c.events.insert event } : FdContext S F C).setContext event ctx,
    ctx, ?_, ?_, ?_, ?_, hnone⟩
  · rw [hheap, List.getElem?_set_self (List.getElem?_eq_some_iff.mp hc).1]
  · rw [FdContext.events_setContext]
    exact Events.has_insert_self c.events hne
  · cases event <;> first | rfl | exact absurd rfl hne
  · rw [hfiber]
    rfl

theorem delEvent_kept {fd : Nat} {ok rt : Bool} (hother : m.registered q other r = false)
    (h : m.delEvent fd q other ok = .ok (m', rt)) (hk : m.Kept p event r) :
    m'.Kept p event r := by
  refine hk.imp (fun hw => ?_) fun hh =>
    handed_moves hh (delEvent_moves (G := fun _ => True) h)
  have hne : ¬ (p = q ∧ event = other) := by
    rintro ⟨rfl, rfl⟩
    exact absurd (hw.registered.symm.trans hother) (by decide)
  obtain ⟨c, hc, h⟩ := bind_ok h
  split at h
  · dsimp only at h
    split at h
    · obtain ⟨rfl, -⟩ := Prod.mk.inj (Except.ok.inj h)
      exact hw
    · obtain ⟨ctx, -, h⟩ := bind_ok h
      obtain ⟨rfl, -⟩ := Prod.mk.inj (Except.ok.inj h)
      exact awaits_assign (deref_ok.mp hc) rfl
        (fun ev hne => Events.has_erase_ne c.events hne) hne hw
  · obtain ⟨rfl, -⟩ := Prod.mk.inj (Except.ok.inj h)
    exact hw

theorem cancelEvent_kept {fd : Nat} {ok rt : Bool}
    (h : m.cancelEvent fd q other ok = .ok (m', rt)) (hk : m.Kept p event r) :
    m'.Kept p event r := by
  obtain ⟨c, -, h⟩ := bind_ok h
  split at h
  · dsimp only at h
    split at h
    · obtain ⟨rfl, -⟩ := Prod.mk.inj (Except.ok.inj h)
      exact hk
    · obtain ⟨m₁, ht, h⟩ := bind_ok h
      obtain ⟨rfl, -⟩ := Prod.mk.inj (Except.ok.inj h)
      exact trigger_kept (by decide) ht hk
  · obtain ⟨rfl, -⟩ := Prod.mk.inj (Except.ok.inj h)
    exact hk

theorem cancelAll_kept {fd : Nat} {ok rt : Bool} (h : m.cancelAll fd q ok = .ok (m', rt))
    (hk : m.Kept p event r) : m'.Kept p event r := by
  obtain ⟨c, -, h⟩ := bind_ok h
  split at h
  · obtain ⟨rfl, -⟩ := Prod.mk.inj (Except.ok.inj h)
    exact hk
  split at h
  · obtain ⟨rfl, -⟩ := Prod.mk.inj (Except.ok.inj h)
    exact hk
  obtain ⟨m₁, h₁, h⟩ := bind_ok h
  obtain ⟨c₁, -, h⟩ := bind_ok h
  obtain ⟨m₂, h₂, h⟩ := bind_ok h
  obtain ⟨c₂, -, h⟩ := bind_ok h
  split at h
  · obtain ⟨rfl, -⟩ := Prod.mk.inj (Except.ok.inj h)
    exact triggerIf_kept (by decide) h₂ (triggerIf_kept (by decide) h₁ hk)
  · cases h

theorem dispatch_kept {mask : Mask} {ok : Bool} (h : m.dispatch q mask ok = .ok m')
    (hk : m.Kept p event r) : m'.Kept p event r := by
  obtain ⟨c, -, h⟩ := bind_ok h
  dsimp only at h
  split at h
  · obtain rfl := Except.ok.inj h
    exact hk
  split at h
  · obtain rfl := Except.ok.inj h
    exact hk
  obtain ⟨m₁, h₁, h₂⟩ := bind_ok h
  exact triggerIf_kept (by decide) h₂ (triggerIf_kept (by decide) h₁ hk)

theorem resize_kept {size : Nat} (hk : m.Kept p event r) :
    (m.contextResize size).Kept p event r := by
  refine hk.imp (fun hw => ?_) id
  obtain ⟨c, ctx, hc, h⟩ := hw
  refine ⟨c, ctx, ?_, h⟩
  simp only [contextResize]
  rw [List.getElem?_append_left (List.getElem?_eq_some_iff.mp hc).1, hc]

/-- `cancelAll` hands a waiting fiber over when the kernel lets it. -/
theorem cancelAll_handed {fd : Nat} {rt : Bool} (hw : m.Awaits p event r)
    (hep : (m.epoll fd).isSome = true) (h : m.cancelAll fd p true = .ok (m', rt)) :
    m'.Handed r := by
  refine (cancelAll_kept h (.inl hw)).resolve_left ?_
  rintro ⟨c', -, hc', hhas', -⟩
  obtain ⟨c₀, ctx, hc₀, hhas, -⟩ := hw
  obtain ⟨e, he⟩ := Option.isSome_iff_exists.mp hep
  obtain ⟨c, hc, h⟩ := bind_ok h
  obtain rfl := Option.some.inj (hc₀.symm.trans (deref_ok.mp hc))
  have hsome : c₀.events ≠ .none := fun hnone => by
    rw [hnone] at hhas
    cases event <;> cases hhas
  simp only [if_neg hsome, epollCtl, he, if_true] at h
  obtain ⟨m₁, -, h⟩ := bind_ok h
  obtain ⟨c₁, -, h⟩ := bind_ok h
  obtain ⟨m₂, -, h⟩ := bind_ok h
  obtain ⟨c₂, hc₂, h⟩ := bind_ok h
  split at h
  · rename_i hnone
    obtain ⟨rfl, -⟩ := Prod.mk.inj (Except.ok.inj h)
    obtain rfl := Option.some.inj (hc'.symm.trans (deref_ok.mp hc₂))
    rw [hnone] at hhas'
    cases event <;> cases hhas'
  · cases h

end IOManager

/-! ## The steps of others -/

namespace IoSys

/-- A step of others triggers the event under which the call has registered its
fiber. -/
def wakes (a : WaitArgs S F) (s : IoSys S F C T) : IoAct S F C T → Bool
  | .event p (.cancelEvent fd event) ok =>
      ok && (s.mgr.epoll fd).isSome && s.reg.any (s.mgr.registered p event)
  | .event p (.cancelAll fd) ok =>
      ok && (s.mgr.epoll fd).isSome && s.reg.any (s.mgr.registered p a.event)
  | .cancelAll _ ok =>
      ok && (s.mgr.epoll a.fd).isSome && s.reg.any (s.mgr.registered a.ctx a.event)
  | .dispatch t _ => (s.reports t).head?.any fun e =>
      (IOManager.realEvents e.mask).has a.event && s.reg.any (s.mgr.registered e.ptr a.event)
  | _ => false

/-- A step of others removes the event under which the call has registered its fiber,
without triggering it. -/
def drops (s : IoSys S F C T) : IoAct S F C T → Bool
  | .event p (.delEvent _ event) _ => s.reg.any (s.mgr.registered p event)
  | _ => false

variable [DecidableEq T] {a : WaitArgs S F} {s s' : IoSys S F C T} {act : IoAct S F C T} {r : Nat}

/-- Others hand the fiber over only in a step that wakes the call. -/
theorem Others.hands (h : Others a s act s') (hown : s.mgr.Own a.ctx a.event r)
    (hr : s.reg = some r) (hh : s'.mgr.Handed r) : s.mgr.Handed r ∨ s.wakes a act = true := by
  have hplace : ∀ {p event}, s.mgr.registered p event r = true → event = a.event :=
    fun hreg => (hown.place _ _ (IOManager.stored_of_registered hreg)).2
  cases h with
  | @event p call ok mgr hm =>
      cases call with
      | addEvent fd event args =>
          obtain ⟨rt, hm⟩ := EventSys.map_fst_ok hm
          exact .inl (IOManager.addEvent_hands hm hh)
      | delEvent fd event =>
          obtain ⟨rt, hm⟩ := EventSys.map_fst_ok hm
          exact .inl (IOManager.delEvent_hands hm hh)
      | cancelEvent fd event =>
          obtain ⟨rt, hm⟩ := EventSys.map_fst_ok hm
          refine (IOManager.cancelEvent_hands hm hh).imp_right ?_
          rintro ⟨hreg, hok, hep⟩
          simp [wakes, hok, hep, hr, hreg]
      | cancelAll fd =>
          obtain ⟨rt, hm⟩ := EventSys.map_fst_ok hm
          refine (IOManager.cancelAll_hands hm hh).imp_right ?_
          rintro ⟨⟨event, hreg⟩, hok, hep⟩
          obtain rfl := hplace hreg
          simp [wakes, hok, hep, hr, hreg]
  | dispatch hreports hm =>
      refine (IOManager.dispatch_hands hm hh).imp_right ?_
      rintro ⟨event, hreg, hmask⟩
      obtain rfl := hplace hreg
      simp [wakes, hreports, hmask, hr, hreg]
  | cancelAll _ hm =>
      refine (IOManager.cancelAll_hands hm hh).imp_right ?_
      rintro ⟨⟨event, hreg⟩, hok, hep⟩
      obtain rfl := hplace hreg
      simp [wakes, hok, hep, hr, hreg]
  | wait | resize | close | closeRaw | del | close_f | socket | get => exact .inl hh

/-- A fiber that waits, or has been handed over, still is when others have acted. -/
theorem Others.kept (h : Others a s act s') (hdrops : s.drops act = false) (hr : s.reg = some r)
    (hk : s.mgr.Kept a.ctx a.event r) : s'.mgr.Kept a.ctx a.event r := by
  cases h with
  | @event p call ok mgr hm =>
      cases call with
      | addEvent fd event args =>
          obtain ⟨rt, hm⟩ := EventSys.map_fst_ok hm
          exact IOManager.addEvent_kept hm hk
      | delEvent fd event =>
          obtain ⟨rt, hm⟩ := EventSys.map_fst_ok hm
          rw [drops, hr, Option.any_some] at hdrops
          exact IOManager.delEvent_kept hdrops hm hk
      | cancelEvent fd event =>
          obtain ⟨rt, hm⟩ := EventSys.map_fst_ok hm
          exact IOManager.cancelEvent_kept hm hk
      | cancelAll fd =>
          obtain ⟨rt, hm⟩ := EventSys.map_fst_ok hm
          exact IOManager.cancelAll_kept hm hk
  | dispatch _ hm => exact IOManager.dispatch_kept hm hk
  | resize => exact IOManager.resize_kept hk
  | cancelAll _ hm => exact IOManager.cancelAll_kept hm hk
  | wait | close | closeRaw | del | close_f | socket | get => exact hk

end IoSys

end CoLib
