/-
# `CoLib.Hook.Shared` — `FdManager` used by several threads

`get` looks the descriptor up under the read lock, releases it, and if there is
no record creates and stores one under the write lock, without looking again.
Here the two critical sections are two steps, and what is stored are pointers:
the records are objects of a heap that live on when the table has lost them.

The log keeps, newest first, the results of `get`, the calls of `del`, and what
the users set through the pointers they got.

**Proved here.**  As long as every thread that creates a record still finds none
there, all results for a descriptor between two calls of `del` are one record;
the first creation that finds one makes two of them.
-/
import CoLib.Hook.FdManager
import CoLib.Lib.Run

namespace CoLib

open Lib

/-- `FdCtx::ptr`: which of the records created so far. -/
abbrev CtxPtr := Nat

/-- What is set through a pointer. -/
inductive Setting where
  | timeout (type : TimeoutOpt) (v : Nat)
  | userNonblock (v : Bool)
  deriving DecidableEq

namespace Setting

/-- `setTimeout` or `setUserNonblock`. -/
def apply : Setting → FdCtx → FdCtx
  | .timeout type v, c => c.setTimeout type v
  | .userNonblock v, c => { c with userNonblock := v }

/-- `getTimeout` or `getUserNonblock` gives the value. -/
def Reads : Setting → FdCtx → Prop
  | .timeout type v, c => c.getTimeout type = v
  | .userNonblock v, c => c.userNonblock = v

/-- The two set the same field. -/
def sameField : Setting → Setting → Bool
  | .timeout type _, .timeout type' _ => type == type'
  | .userNonblock _, .userNonblock _ => true
  | _, _ => false

theorem reads_apply (x : Setting) (c : FdCtx) : x.Reads (x.apply c) := by
  cases x with
  | timeout type v => cases type <;> rfl
  | userNonblock v => rfl

theorem reads_apply_of_ne {x y : Setting} {c : FdCtx} (hne : y.sameField x = false)
    (h : x.Reads c) : x.Reads (y.apply c) := by
  cases x with
  | timeout type v =>
      cases y with
      | timeout type' v' =>
          cases type <;> cases type' <;> first | exact h | simp [sameField] at hne
      | userNonblock v' => exact h
  | userNonblock v =>
      cases y with
      | timeout type' v' => cases type' <;> exact h
      | userNonblock v' => exact absurd hne (by simp [sameField])

end Setting

/-- What happens at the table. -/
inductive FdEvent where
  | returned (fd : Nat) (ctx : Option CtxPtr)
  | deleted (fd : Nat)
  | set (ctx : CtxPtr) (x : Setting)
  deriving DecidableEq

/-- Where a thread is in `get`: outside, or behind the read lock and about to
create a record. -/
inductive GetPhase where
  | outside
  | creating (fd : Nat)
  deriving DecidableEq

/-- The table, the records, the kernel, the threads and the log. -/
structure FdTable (T : Type) where
  datas : List (Option CtxPtr)
  objects : List FdCtx
  kernel : Kernel
  phase : T → GetPhase
  log : List FdEvent

/-- The steps: the two critical sections of `get`, `del`, a call through a
pointer, and whatever else happens to the kernel's descriptors. -/
inductive FdAct (T : Type) where
  | get (t : T) (fd : Nat) (autoCreate : Bool)
  | create (t : T)
  | del (t : T) (fd : Nat)
  | set (ctx : CtxPtr) (x : Setting)
  | kernel (k : Kernel)

namespace FdTable

variable {T : Type} [DecidableEq T]

/-- `FdManager()`. -/
def init (k : Kernel) : FdTable T :=
  { datas := List.replicate 64 none
    objects := []
    kernel := k
    phase := fun _ => .outside
    log := [] }

/-- `m_datas[fd]`, null also where there is no such slot. -/
def slot (s : FdTable T) (fd : Nat) : Option CtxPtr :=
  (s.datas[fd]?).join

/-- A call of `get` returns. -/
def answer (s : FdTable T) (t : T) (fd : Nat) (ctx : Option CtxPtr) : FdTable T :=
  { s with
    phase := Function.update s.phase t .outside
    log := .returned fd ctx :: s.log }

/-- `get` up to the release of the read lock. -/
def get (s : FdTable T) (t : T) (fd : Nat) (autoCreate : Bool) : FdTable T :=
  if s.datas.length ≤ fd then
    if autoCreate = false then s.answer t fd none
    else { s with phase := Function.update s.phase t (.creating fd) }
  else if (s.slot fd).isSome || !autoCreate then s.answer t fd (s.slot fd)
  else { s with phase := Function.update s.phase t (.creating fd) }

/-- `get` under the write lock. -/
def create (s : FdTable T) (t : T) (fd : Nat) : FdTable T :=
  let (ctx, kernel) := FdCtx.create fd s.kernel
  let datas :=
    if s.datas.length ≤ fd then
      s.datas.take (fd * 3 / 2) ++ List.replicate (fd * 3 / 2 - s.datas.length) none
    else s.datas
  { s with
    datas := datas.set fd (some s.objects.length)
    objects := s.objects ++ [ctx]
    kernel }.answer t fd (some s.objects.length)

/-- `del`. -/
def del (s : FdTable T) (fd : Nat) : FdTable T :=
  { s with
    datas := if s.datas.length ≤ fd then s.datas else s.datas.set fd none
    log := .deleted fd :: s.log }

/-- One step. -/
def step (s : FdTable T) : FdAct T → Option (FdTable T)
  | .get t fd autoCreate =>
      match s.phase t with
      | .outside => some (s.get t fd autoCreate)
      | .creating _ => none
  | .create t =>
      match s.phase t with
      | .outside => none
      | .creating fd => some (s.create t fd)
  | .del t fd =>
      match s.phase t with
      | .outside => some (s.del fd)
      | .creating _ => none
  | .set ctx x =>
      if ctx < s.objects.length then
        some { s with objects := s.objects.modify ctx x.apply, log := .set ctx x :: s.log }
      else none
  | .kernel k => some { s with kernel := k }

/-- The condition on a step: a thread that creates a record finds none. -/
def fresh (s : FdTable T) : FdAct T → Prop
  | .create t =>
      match s.phase t with
      | .outside => True
      | .creating fd => s.slot fd = none
  | _ => True

/-! ## What is promised -/

/-- All results for a descriptor between two calls of `del` are one record. -/
def SameContext (log : List FdEvent) : Prop :=
  ∀ (l₁ l₂ l₃ : List FdEvent) (fd : Nat) (o o' : CtxPtr),
    log = l₁ ++ .returned fd (some o') :: (l₂ ++ .returned fd (some o) :: l₃) →
    .deleted fd ∉ l₂ → o' = o

/-- What was set last through a result is read through every later one. -/
def SettingsSeen (s : FdTable T) : Prop :=
  ∀ (l₁ l₂ l₃ l₄ : List FdEvent) (fd : Nat) (o o' : CtxPtr) (x : Setting),
    s.log = l₁ ++
        .returned fd (some o') :: (l₂ ++ .set o x :: (l₃ ++ .returned fd (some o) :: l₄)) →
    .deleted fd ∉ l₂ → .deleted fd ∉ l₃ →
    (∀ p y, .set p y ∈ l₁ ++ l₂ → p = o ∨ p = o' → y.sameField x = false) →
    ∃ c, s.objects[o']? = some c ∧ x.Reads c

/-! ## The log -/

/-- The events since the last `del(fd)`. -/
def since (fd : Nat) (log : List FdEvent) : List FdEvent :=
  log.takeWhile (· != .deleted fd)

theorem since_cons_of_ne {fd : Nat} {e : FdEvent} (he : e ≠ .deleted fd) (log : List FdEvent) :
    since fd (e :: log) = e :: since fd log :=
  List.takeWhile_cons_of_pos (by simpa using he)

theorem since_deleted (fd : Nat) (log : List FdEvent) : since fd (.deleted fd :: log) = [] :=
  List.takeWhile_cons_of_neg (by simp)

theorem mem_since_iff {fd : Nat} {o : CtxPtr} : ∀ {log : List FdEvent},
    .returned fd (some o) ∈ since fd log ↔ ∃ l₂ l₃ : List FdEvent,
      log = l₂ ++ .returned fd (some o) :: l₃ ∧ .deleted fd ∉ l₂ := by
  intro log
  induction log with
  | nil => simp [since]
  | cons e log ih =>
      by_cases he : e = .deleted fd
      · subst he
        rw [since_deleted]
        refine iff_of_false List.not_mem_nil ?_
        rintro ⟨l₂, l₃, heq, hno⟩
        cases l₂ with
        | nil => cases heq
        | cons e' l₂ =>
            obtain ⟨rfl, -⟩ := List.cons.inj heq
            exact hno List.mem_cons_self
      · rw [since_cons_of_ne he, List.mem_cons, ih]
        constructor
        · rintro (rfl | ⟨l₂, l₃, rfl, hno⟩)
          · exact ⟨[], log, rfl, List.not_mem_nil⟩
          · exact ⟨e :: l₂, l₃, rfl, fun hmem =>
              (List.mem_cons.mp hmem).elim (fun heq => he heq.symm) hno⟩
        · rintro ⟨l₂, l₃, heq, hno⟩
          cases l₂ with
          | nil => exact .inl (List.cons.inj heq).1.symm
          | cons e' l₂ =>
              exact .inr ⟨l₂, l₃, (List.cons.inj heq).2,
                fun hmem => hno (List.mem_cons_of_mem _ hmem)⟩

theorem SameContext.tail {e : FdEvent} {log : List FdEvent} (h : SameContext (e :: log)) :
    SameContext log := by
  intro l₁ l₂ l₃ fd o o' heq hno
  exact h (e :: l₁) l₂ l₃ fd o o' (by rw [heq]; rfl) hno

/-- A result agrees if it is the one there was. -/
theorem sameContext_cons {e : FdEvent} {log : List FdEvent} (h : SameContext log) :
    SameContext (e :: log) ↔ ∀ fd o o', e = .returned fd (some o') →
      .returned fd (some o) ∈ since fd log → o' = o := by
  constructor
  · rintro hsame fd o o' rfl hmem
    obtain ⟨l₂, l₃, rfl, hno⟩ := mem_since_iff.mp hmem
    exact hsame [] l₂ l₃ fd o o' rfl hno
  · intro hnew l₁ l₂ l₃ fd o o' heq hno
    cases l₁ with
    | nil =>
        obtain ⟨rfl, rfl⟩ := List.cons.inj heq
        exact hnew fd o o' rfl (mem_since_iff.mpr ⟨l₂, l₃, rfl, hno⟩)
    | cons e' l₁ => exact h l₁ l₂ l₃ fd o o' (List.cons.inj heq).2 hno

/-! ## The table -/

variable {s s' : FdTable T}

/-- The table always has room for small numbers, the slot of a descriptor has
its last result, and every record has what was set last. -/
structure Inv (s : FdTable T) : Prop where
  room : 2 ≤ s.datas.length
  slot_iff : ∀ fd o, s.slot fd = some o ↔ .returned fd (some o) ∈ since fd s.log
  valid : ∀ fd o, s.slot fd = some o → o < s.objects.length
  same : SameContext s.log
  seen : ∀ (l₁ l₂ : List FdEvent) (o : CtxPtr) (x : Setting), s.log = l₁ ++ .set o x :: l₂ →
    (∀ y, .set o y ∈ l₁ → y.sameField x = false) →
    ∃ c, s.objects[o]? = some c ∧ x.Reads c

omit [DecidableEq T] in
theorem inv_init (k : Kernel) : (init k : FdTable T).Inv where
  room := by simp [init]
  slot_iff := fun fd o => by
    have hslot : (init k : FdTable T).slot fd = none := by
      simp only [slot, init, List.getElem?_replicate]
      split <;> rfl
    rw [hslot]
    exact iff_of_false (by simp) List.not_mem_nil
  valid := fun fd o h => by
    simp only [slot, init, List.getElem?_replicate] at h
    split at h <;> cases h
  same := fun l₁ l₂ l₃ fd o o' h => by simp [init] at h
  seen := fun l₁ l₂ o x h => by simp [init] at h

omit [DecidableEq T] in
/-- What was set last stays when an event is logged that sets nothing and the
records stay. -/
theorem Inv.seen_cons (h : s.Inv) {e : FdEvent} (he : ∀ o x, e ≠ .set o x)
    {objects : List FdCtx} (hobj : ∀ o < s.objects.length, objects[o]? = s.objects[o]?)
    (l₁ l₂ : List FdEvent) (o : CtxPtr) (x : Setting)
    (heq : e :: s.log = l₁ ++ .set o x :: l₂)
    (hlast : ∀ y, .set o y ∈ l₁ → y.sameField x = false) :
    ∃ c, objects[o]? = some c ∧ x.Reads c := by
  cases l₁ with
  | nil => exact absurd (List.cons.inj heq).1 (he o x)
  | cons e' l₁ =>
      obtain ⟨c, hc, hreads⟩ := h.seen l₁ l₂ o x (List.cons.inj heq).2
        fun y hy => hlast y (List.mem_cons_of_mem _ hy)
      exact ⟨c, by rw [hobj o (List.getElem?_eq_some_iff.mp hc).1, hc], hreads⟩

/-- `get` returns what is in the slot, or null. -/
theorem Inv.answer (h : s.Inv) (t : T) {fd : Nat} {ctx : Option CtxPtr}
    (hctx : ctx = none ∨ s.slot fd = ctx) : (s.answer t fd ctx).Inv where
  room := h.room
  slot_iff := fun fd' o => by
    refine (h.slot_iff fd' o).trans ?_
    change _ ↔ _ ∈ since fd' (.returned fd ctx :: s.log)
    rw [since_cons_of_ne (by simp), List.mem_cons]
    refine ⟨.inr, fun hmem => hmem.elim (fun heq => ?_) id⟩
    obtain ⟨rfl, rfl⟩ := FdEvent.returned.inj heq
    exact (h.slot_iff fd' o).mp (hctx.resolve_left (by simp))
  valid := h.valid
  same := (sameContext_cons h.same).mpr fun fd' o o' heq hmem => by
    obtain ⟨rfl, rfl⟩ := FdEvent.returned.inj heq
    have hslot := (h.slot_iff fd o).mpr hmem
    rcases hctx with hnull | hctx
    · cases hnull
    · exact Option.some.inj (hctx.symm.trans hslot)
  seen := h.seen_cons (by simp) fun _ _ => rfl

omit [DecidableEq T] in
theorem slot_del (s : FdTable T) (fd fd' : Nat) :
    (s.del fd).slot fd' = if fd' = fd then none else s.slot fd' := by
  simp only [slot, del]
  by_cases hlen : s.datas.length ≤ fd
  · rw [if_pos hlen]
    split
    · rename_i heq
      rw [heq, List.getElem?_eq_none hlen]
      rfl
    · rfl
  · rw [if_neg hlen, List.getElem?_set]
    by_cases heq : fd' = fd
    · rw [if_pos heq.symm, if_pos heq]
      split <;> rfl
    · rw [if_neg (Ne.symm heq), if_neg heq]

omit [DecidableEq T] in
theorem Inv.del (h : s.Inv) (fd : Nat) : (s.del fd).Inv where
  room := by
    simp only [FdTable.del]
    split
    · exact h.room
    · rw [List.length_set]
      exact h.room
  slot_iff := fun fd' o => by
    rw [slot_del]
    change _ ↔ _ ∈ since fd' (.deleted fd :: s.log)
    by_cases heq : fd' = fd
    · rw [if_pos heq, heq, since_deleted]
      exact iff_of_false (by simp) List.not_mem_nil
    · rw [if_neg heq, since_cons_of_ne (by simpa using Ne.symm heq), h.slot_iff, List.mem_cons]
      simp
  valid := fun fd' o hslot => by
    rw [slot_del] at hslot
    split at hslot
    · cases hslot
    · exact h.valid fd' o hslot
  same := (sameContext_cons h.same).mpr fun fd' o o' heq => by cases heq
  seen := h.seen_cons (by simp) fun _ _ => rfl

/-- The table after a record has been stored. -/
theorem slot_create (h : 2 ≤ s.datas.length) (t : T) (fd fd' : Nat) :
    (s.create t fd).slot fd' = if fd' = fd then some s.objects.length else s.slot fd' := by
  obtain ⟨datas, hdatas⟩ : ∃ datas, datas =
      if s.datas.length ≤ fd then
        s.datas.take (fd * 3 / 2) ++ List.replicate (fd * 3 / 2 - s.datas.length) none
      else s.datas := ⟨_, rfl⟩
  have hcreate : (s.create t fd).datas = datas.set fd (some s.objects.length) := by
    rw [hdatas]
    rfl
  have hroom : fd < datas.length := by
    rw [hdatas]
    split
    · rw [List.length_append, List.length_take, List.length_replicate]
      omega
    · omega
  have hold : ∀ fd', (datas[fd']?).join = s.slot fd' := by
    intro fd'
    rw [hdatas, slot]
    split
    · rw [List.take_of_length_le (by omega), List.getElem?_append]
      split
      · rfl
      · rw [List.getElem?_eq_none (by omega : s.datas.length ≤ fd'), List.getElem?_replicate]
        split <;> rfl
    · rfl
  rw [slot, hcreate, List.getElem?_set]
  by_cases heq : fd' = fd
  · rw [if_pos heq.symm, if_pos heq, if_pos hroom]
    rfl
  · rw [if_neg (Ne.symm heq), if_neg heq, hold]

theorem length_create (h : 2 ≤ s.datas.length) (t : T) (fd : Nat) :
    2 ≤ (s.create t fd).datas.length := by
  simp only [create, answer, List.length_set]
  split
  · rw [List.length_append, List.length_take, List.length_replicate]
    omega
  · exact h

/-- A record is created where there is none. -/
theorem Inv.create (h : s.Inv) (t : T) {fd : Nat} (hnone : s.slot fd = none) :
    (s.create t fd).Inv where
  room := length_create h.room t fd
  slot_iff := fun fd' o => by
    rw [slot_create h.room]
    change _ ↔ _ ∈ since fd' (.returned fd (some s.objects.length) :: s.log)
    rw [since_cons_of_ne (by simp), List.mem_cons, ← h.slot_iff]
    by_cases heq : fd' = fd
    · subst heq
      simp [hnone, eq_comm]
    · simp [heq]
  valid := fun fd' o hslot => by
    rw [slot_create h.room] at hslot
    change o < (s.objects ++ [(FdCtx.create fd s.kernel).1]).length
    rw [List.length_append, List.length_singleton]
    split at hslot
    · exact Option.some.inj hslot ▸ Nat.lt_succ_self _
    · exact Nat.lt_succ_of_lt (h.valid fd' o hslot)
  same := (sameContext_cons h.same).mpr fun fd' o o' heq hmem => by
    obtain ⟨rfl, -⟩ := FdEvent.returned.inj heq
    rw [← h.slot_iff, hnone] at hmem
    cases hmem
  seen := h.seen_cons (by simp) fun o ho => List.getElem?_append_left ho

omit [DecidableEq T] in
/-- A call through a pointer changes the record. -/
theorem Inv.set (h : s.Inv) {ctx : CtxPtr} (x : Setting) (hvalid : ctx < s.objects.length) :
    { s with objects := s.objects.modify ctx x.apply, log := .set ctx x :: s.log : FdTable T }.Inv
    where
  room := h.room
  slot_iff := fun fd o => by
    refine (h.slot_iff fd o).trans ?_
    rw [since_cons_of_ne (by simp), List.mem_cons]
    simp
  valid := fun fd o hslot => by
    rw [List.length_modify]
    exact h.valid fd o hslot
  same := (sameContext_cons h.same).mpr fun fd o o' heq => by cases heq
  seen := fun l₁ l₂ o y heq hlast => by
    rw [List.getElem?_modify]
    cases l₁ with
    | nil =>
        obtain ⟨hset, -⟩ := List.cons.inj heq
        obtain ⟨rfl, rfl⟩ := FdEvent.set.inj hset
        exact ⟨x.apply s.objects[ctx], by simp [List.getElem?_eq_getElem hvalid],
          x.reads_apply _⟩
    | cons e l₁ =>
        obtain ⟨rfl, hlog⟩ := List.cons.inj heq
        obtain ⟨c, hc, hreads⟩ := h.seen l₁ l₂ o y hlog
          fun z hz => hlast z (List.mem_cons_of_mem _ hz)
        by_cases hco : ctx = o
        · subst hco
          have hne := hlast x List.mem_cons_self
          exact ⟨x.apply c, by simp [hc], Setting.reads_apply_of_ne hne hreads⟩
        · exact ⟨c, by simp [hco, hc], hreads⟩

omit [DecidableEq T] in
theorem Inv.of_eq (h : s.Inv) (hdatas : s'.datas = s.datas) (hobj : s'.objects = s.objects)
    (hlog : s'.log = s.log) : s'.Inv where
  room := hdatas ▸ h.room
  slot_iff := fun fd o => by
    rw [slot, hdatas, hlog]
    exact h.slot_iff fd o
  valid := fun fd o hslot => by
    rw [slot, hdatas] at hslot
    exact hobj ▸ h.valid fd o hslot
  same := hlog ▸ h.same
  seen := by
    rw [hlog, hobj]
    exact h.seen

/-- Every step that meets the condition keeps the invariant. -/
theorem Inv.step (h : s.Inv) {a : FdAct T} (hfresh : s.fresh a) (hstep : s.step a = some s') :
    s'.Inv := by
  cases a with
  | get t fd autoCreate =>
      simp only [FdTable.step] at hstep
      split at hstep
      · obtain rfl := Option.some.inj hstep
        rw [FdTable.get]
        split
        · split
          · exact h.answer t (.inl rfl)
          · exact h.of_eq rfl rfl rfl
        · split
          · exact h.answer t (.inr rfl)
          · exact h.of_eq rfl rfl rfl
      · cases hstep
  | create t =>
      simp only [FdTable.step] at hstep
      split at hstep
      · cases hstep
      · rename_i fd hphase
        obtain rfl := Option.some.inj hstep
        simp only [fresh, hphase] at hfresh
        exact h.create t hfresh
  | del t fd =>
      simp only [FdTable.step] at hstep
      split at hstep
      · obtain rfl := Option.some.inj hstep
        exact h.del fd
      · cases hstep
  | set ctx x =>
      simp only [FdTable.step] at hstep
      split at hstep
      · obtain rfl := Option.some.inj hstep
        exact h.set x ‹_›
      · cases hstep
  | kernel k =>
      obtain rfl := Option.some.inj hstep
      exact h.of_eq rfl rfl rfl

omit [DecidableEq T] in
/-- What was set last through a result is read through every later one, which is
the same record. -/
theorem Inv.settingsSeen (h : s.Inv) : s.SettingsSeen := by
  intro l₁ l₂ l₃ l₄ fd o o' x hlog hno₂ hno₃ hlast
  have hsame : o' = o := by
    refine h.same l₁ (l₂ ++ .set o x :: l₃) l₄ fd o o' (by rw [hlog]; simp) ?_
    simp [hno₂, hno₃]
  subst hsame
  refine h.seen (l₁ ++ .returned fd (some o') :: l₂) (l₃ ++ .returned fd (some o') :: l₄) o' x
    (by rw [hlog]; simp) fun y hy => ?_
  refine hlast o' y ?_ (.inl rfl)
  simpa using hy

/-- **One record between two deletions.**  In every run in which no thread
creates a record where there is one already, all results for a descriptor
between two calls of `del` are the same record, and what is set through one of
them is read through every later one.  The first step that does not meet the
condition breaks this. -/
theorem get_sameContext {k : Kernel} (h : Reach step fresh (init k : FdTable T) s) :
    SameContext s.log ∧ s.SettingsSeen ∧
      ∀ a s', s.step a = some s' → (SameContext s'.log ↔ s.fresh a) := by
  have hinv : s.Inv := h.invariant (inv_init k) fun _ _ _ hs hf hstep => hs.step hf hstep
  refine ⟨hinv.same, hinv.settingsSeen, fun a s' hstep => ⟨fun hsame => ?_,
    fun hfresh => (hinv.step hfresh hstep).same⟩⟩
  cases a with
  | create t =>
      simp only [FdTable.step] at hstep
      simp only [fresh]
      split at hstep
      · cases hstep
      · rename_i fd hphase
        obtain rfl := Option.some.inj hstep
        by_contra hfull
        obtain ⟨o, ho⟩ := Option.ne_none_iff_exists'.mp hfull
        have heq := (sameContext_cons hinv.same).mp hsame fd o _ rfl ((hinv.slot_iff fd o).mp ho)
        rw [← heq] at ho
        exact Nat.lt_irrefl _ (hinv.valid fd _ ho)
  | get | del | set | kernel => trivial

/-- One thread creates a record, another finds it and sets a timeout. -/
def oneCreates : List (FdAct Bool) :=
  [.get false 5 true, .create false, .get true 5 true, .set 0 (.timeout .SO_RCVTIMEO 1000),
    .get false 5 false]

/-- Every descriptor is an open socket. -/
def sockets : Kernel := fun _ => some { isSock := true, flags := 0#32 }

instance (s : FdTable T) : (a : FdAct T) → Decidable (s.fresh a)
  | .create t =>
      match h : s.phase t with
      | .outside => .isTrue (by simp [fresh, h])
      | .creating fd => decidable_of_iff (s.slot fd = none) (by simp [fresh, h])
  | .get .. | .del .. | .set .. | .kernel _ => inferInstanceAs (Decidable True)

theorem get_sameContext_oneCreates :
    ∃ s, run (guarded step fresh) (init sockets) oneCreates = some s ∧
      SameContext s.log ∧ s.SettingsSeen := by
  obtain ⟨s, hs⟩ := Option.isSome_iff_exists.mp
    (by decide +kernel : (run (guarded step fresh) (init sockets) oneCreates).isSome)
  obtain ⟨hsame, hseen, -⟩ := get_sameContext (run_reach _ hs)
  exact ⟨s, hs, hsame, hseen⟩

/-- Both threads look up before either creates; the first sets a timeout. -/
def bothCreate : List (FdAct Bool) :=
  [.get false 5 true, .get true 5 true, .create false, .set 0 (.timeout .SO_RCVTIMEO 1000),
    .create true, .get false 5 false]

/-- **Two records for one descriptor.**  The second creation replaces the first
record, and the timeout set through it is not seen any more. -/
theorem get_twoContexts :
    ∃ s, run step (init sockets) bothCreate = some s ∧
      ¬ SameContext s.log ∧ ¬ s.SettingsSeen := by
  obtain ⟨s, hs⟩ := Option.isSome_iff_exists.mp
    (by decide +kernel : (run step (init sockets) bothCreate).isSome)
  have hlog : ∀ u ∈ run step (init sockets) bothCreate, u.log =
      [.returned 5 (some 1), .returned 5 (some 1), .set 0 (.timeout .SO_RCVTIMEO 1000),
        .returned 5 (some 0)] := by decide +kernel
  have hread : ∀ u ∈ run step (init sockets) bothCreate,
      u.objects[1]?.map (·.getTimeout .SO_RCVTIMEO) = some (wordSize - 1) := by decide +kernel
  refine ⟨s, hs, fun hsame => ?_, fun hseen => ?_⟩
  · exact absurd (hsame [] [.returned 5 (some 1), .set 0 (.timeout .SO_RCVTIMEO 1000)] [] 5 0 1
      (hlog s hs) (by decide)) (by decide)
  · obtain ⟨c, hc, hreads⟩ := hseen [] [.returned 5 (some 1)] [] [] 5 0 1
      (.timeout .SO_RCVTIMEO 1000) (hlog s hs) (by decide) (by decide) (by simp)
    have heq := hread s hs
    rw [hc, Option.map_some, Option.some.injEq] at heq
    exact absurd (hreads.symm.trans heq) (by decide)

/-! ## One thread alone -/

/-- The table as one thread sees it. -/
def view (s : FdTable T) : FdManager :=
  { datas := s.datas.map fun ctx => ctx.bind (s.objects[·]?) }

omit [DecidableEq T] in
theorem view_find (s : FdTable T) (fd : Nat) :
    s.view.find fd = (s.slot fd).bind (s.objects[·]?) := by
  rw [FdManager.find_eq_slot]
  simp only [FdManager.slot, view, slot, List.getElem?_map]
  cases s.datas[fd]? with
  | none => rfl
  | some ctx => rfl

/-- `get(fd, true)` by a thread that no other step comes between. -/
def getAlone (s : FdTable T) (t : T) (fd : Nat) : FdTable T :=
  let s := s.get t fd true
  match s.phase t with
  | .outside => s
  | .creating fd => s.create t fd

theorem view_create (hvalid : ∀ fd o, s.slot fd = some o → o < s.objects.length) (t : T)
    (fd : Nat) :
    (s.create t fd).view =
      { datas := (if s.view.datas.length ≤ fd then s.view.resize (fd * 3 / 2)
          else s.view).datas.set fd (some (FdCtx.create fd s.kernel).1) } := by
  have hold : s.datas.map (fun ctx => ctx.bind ((s.objects ++ [(FdCtx.create fd s.kernel).1])[·]?))
      = s.view.datas := by
    refine List.map_congr_left fun ctx hctx => ?_
    cases ctx with
    | none => rfl
    | some o =>
        obtain ⟨i, hi⟩ := List.mem_iff_getElem?.mp hctx
        have hlt := hvalid i o (by rw [slot, hi]; rfl)
        exact List.getElem?_append_left hlt
  have hlen : s.view.datas.length = s.datas.length := List.length_map _
  by_cases hle : s.datas.length ≤ fd
  · rw [if_pos (hlen ▸ hle)]
    simp only [view, create, answer, if_pos hle, List.map_set, Option.bind_some,
      List.getElem?_concat_length, List.map_append, List.map_take, List.map_replicate,
      Option.bind_none, hold, FdManager.resize, List.length_map]
  · rw [if_neg (hlen ▸ hle)]
    simp only [view, create, answer, if_neg hle, List.map_set, Option.bind_some,
      List.getElem?_concat_length, hold]

/-- A thread that no other step comes between does what `getOrCreate` says of
the table. -/
theorem view_getAlone (hvalid : ∀ fd o, s.slot fd = some o → o < s.objects.length) (t : T)
    (fd : Nat) :
    ((s.getAlone t fd).view, (s.getAlone t fd).kernel) = s.view.getOrCreate s.kernel fd := by
  cases hslot : s.slot fd with
  | some o =>
      have hlen : ¬ s.datas.length ≤ fd := by
        intro hle
        rw [slot, List.getElem?_eq_none hle] at hslot
        cases hslot
      have hfind : s.view.find fd = some (s.objects.get ⟨o, hvalid fd o hslot⟩) := by
        rw [view_find, hslot, Option.bind_some, List.getElem?_eq_getElem (hvalid fd o hslot)]
        rfl
      have hget : s.get t fd true = s.answer t fd (some o) := by
        rw [get, if_neg hlen, hslot]
        rfl
      have hout : (s.answer t fd (some o)).phase t = .outside := Function.update_self ..
      simp only [getAlone, hget, hout, FdManager.getOrCreate, hfind]
      rfl
  | none =>
      have hfind : s.view.find fd = none := by
        rw [view_find, hslot]
        rfl
      have hget : s.get t fd true
          = { s with phase := Function.update s.phase t (.creating fd) } := by
        rw [get]
        split
        · rw [if_neg (by decide)]
        · rw [hslot]
          rfl
      have hcreating : Function.update s.phase t (.creating fd) t = .creating fd :=
        Function.update_self ..
      simp only [getAlone, hget, hcreating, FdManager.getOrCreate, hfind]
      rw [view_create (s := { s with phase := Function.update s.phase t (.creating fd) }) hvalid]
      rfl

end FdTable

end CoLib
