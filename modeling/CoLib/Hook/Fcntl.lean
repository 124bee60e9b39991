/-
# `CoLib.Hook.Fcntl` — the non-blocking flag, the user's and the kernel's

A managed socket is non-blocking for the kernel whatever the user asks for:
`do_io` relies on it.  The user's wish is kept in the `FdCtx`, and a hooked
`fcntl(F_GETFL)` reports it.  Two calls change it: `fcntl(F_SETFL)` keeps the
kernel's flag, `ioctl(FIONBIO)` passes the user's value on.

**Proved here.**  `nonblock_iff`: along a sequence of such calls the kernel's
flag stays set and `F_GETFL` reports the last wish exactly if no call is an
`ioctl(FIONBIO)` with the value 0.  The user's side holds in any case
(`callAll_getfl`).
-/
import CoLib.Hook.FdManager

namespace CoLib

open Lib

/-- The hooks' table of descriptors and the kernel's. -/
structure Descriptors where
  mgr : FdManager
  kernel : Kernel

namespace Descriptors

/-! ## The calls -/

/-- The hooked `fcntl(fd, F_SETFL, arg)`. -/
def fcntlSetfl (s : Descriptors) (fd : Nat) (arg : BitVec 32) : Descriptors × BitVec 32 :=
  match s.mgr.find fd with
  | none =>
      let (kernel, rt) := s.kernel.setfl fd arg
      ({ s with kernel }, rt)
  | some ctx =>
      if ctx.passes then
        let (kernel, rt) := s.kernel.setfl fd arg
        ({ s with kernel }, rt)
      else
        let mgr := s.mgr.modify fd fun c => { c with userNonblock := isNonblock arg }
        let arg := if ctx.sysNonblock then arg ||| O_NONBLOCK else arg &&& ~~~O_NONBLOCK
        let (kernel, rt) := s.kernel.setfl fd arg
        ({ mgr, kernel }, rt)

/-- The hooked `fcntl(fd, F_GETFL)`. -/
def fcntlGetfl (s : Descriptors) (fd : Nat) : BitVec 32 :=
  let arg := s.kernel.getfl fd
  match s.mgr.find fd with
  | none => arg
  | some ctx =>
      if ctx.passes then arg
      else if ctx.userNonblock then arg ||| O_NONBLOCK
      else arg &&& ~~~O_NONBLOCK

/-- The hooked `ioctl(d, FIONBIO, &v)`. -/
def ioctlFionbio (s : Descriptors) (d : Nat) (v : BitVec 32) : Descriptors × BitVec 32 :=
  match s.mgr.find d with
  | none =>
      let (kernel, rt) := s.kernel.fionbio d v
      ({ s with kernel }, rt)
  | some ctx =>
      let mgr :=
        if ctx.passes then s.mgr
        else s.mgr.modify d fun c => { c with userNonblock := v != 0#32 }
      let (kernel, rt) := s.kernel.fionbio d v
      ({ mgr, kernel }, rt)

/-- A call by which the user asks for blocking or non-blocking. -/
inductive Wish where
  | setfl (arg : BitVec 32)
  | fionbio (v : BitVec 32)
  deriving DecidableEq

/-- What it asks for. -/
def Wish.nonblock : Wish → Bool
  | .setfl arg => isNonblock arg
  | .fionbio v => v != 0#32

/-- The call. -/
def call (s : Descriptors) (fd : Nat) : Wish → Descriptors
  | .setfl arg => (s.fcntlSetfl fd arg).1
  | .fionbio v => (s.ioctlFionbio fd v).1

/-- The calls in their order. -/
def callAll (s : Descriptors) (fd : Nat) (ws : List Wish) : Descriptors :=
  ws.foldl (fun s w => s.call fd w) s

/-! ## Managed sockets -/

/-- The descriptor is open, and its record one of a socket that the hooks have
made non-blocking (nothing ever sets `isClosed`). -/
structure Managed (s : Descriptors) (fd : Nat) (ctx : FdCtx) (f : File) : Prop where
  found : s.mgr.find fd = some ctx
  isSocket : ctx.isSocket = true
  sysNonblock : ctx.sysNonblock = true
  isClosed : ctx.isClosed = false
  opened : s.kernel fd = some f

variable {s : Descriptors} {fd : Nat} {ctx : FdCtx} {f : File}

/-- The record made for an open socket is managed, and the kernel's flag set. -/
theorem managed_getOrCreate (hf : s.kernel fd = some f) (hs : f.isSock = true)
    (hnew : s.mgr.find fd = none) (hroom : fd < s.mgr.datas.length ∨ 2 ≤ fd) :
    ∃ ctx f', Managed ⟨(s.mgr.getOrCreate s.kernel fd).1, (s.mgr.getOrCreate s.kernel fd).2⟩
      fd ctx f' ∧ isNonblock f'.flags = true := by
  have hfind := FdManager.find_getOrCreate (k := s.kernel) hnew hroom
  have hkernel : (s.mgr.getOrCreate s.kernel fd).2 = (FdCtx.create fd s.kernel).2 := by
    simp only [FdManager.getOrCreate, hnew]
  rw [FdCtx.create_socket hf hs] at hfind hkernel
  cases hflag : isNonblock f.flags with
  | true =>
      refine ⟨_, f, ⟨hfind, rfl, rfl, rfl, ?_⟩, hflag⟩
      simpa [hkernel, hflag] using hf
  | false =>
      refine ⟨_, { f with flags := Kernel.setFlags f.flags (f.flags ||| O_NONBLOCK) },
        ⟨hfind, rfl, rfl, rfl, ?_⟩, ?_⟩
      · simp [hkernel, hflag, Kernel.setfl, hf]
      · rw [isNonblock_setFlags, isNonblock_or]

/-- What a call on a managed socket does: the record keeps the wish, and the
kernel's flag stays set by `F_SETFL` and follows the user by `FIONBIO`. -/
theorem Managed.call (h : s.Managed fd ctx f) (w : Wish) :
    ∃ f', (s.call fd w).Managed fd { ctx with userNonblock := w.nonblock } f' ∧
      (isNonblock f'.flags = true ↔ w ≠ .fionbio 0#32) := by
  have hpasses : ctx.passes = false := by
    rw [FdCtx.passes, h.isClosed, h.isSocket]
    rfl
  have hfind : ∀ b, (s.mgr.modify fd fun c => { c with userNonblock := b }).find fd =
      some { ctx with userNonblock := b } := by
    intro b
    rw [FdManager.find_modify, if_pos rfl, h.found]
    rfl
  cases w with
  | setfl arg =>
      refine ⟨{ f with flags := Kernel.setFlags f.flags (arg ||| O_NONBLOCK) },
        ⟨?_, h.isSocket, h.sysNonblock, h.isClosed, ?_⟩, ?_⟩
      · simpa [Descriptors.call, fcntlSetfl, h.found, hpasses, Wish.nonblock] using
          hfind (Wish.setfl arg).nonblock
      · simp [Descriptors.call, fcntlSetfl, h.found, hpasses, h.sysNonblock, Kernel.setfl,
          h.opened]
      · simp
  | fionbio v =>
      refine ⟨{ f with flags := if v = 0#32 then f.flags &&& ~~~O_NONBLOCK
          else f.flags ||| O_NONBLOCK }, ⟨?_, h.isSocket, h.sysNonblock, h.isClosed, ?_⟩, ?_⟩
      · simpa [Descriptors.call, ioctlFionbio, h.found, hpasses, Wish.nonblock] using
          hfind (Wish.fionbio v).nonblock
      · simp [Descriptors.call, ioctlFionbio, h.found, hpasses, Kernel.fionbio, h.opened]
      · by_cases hv : v = 0#32
        · simp [hv]
        · simp [hv]

/-- `F_GETFL` on a managed socket reports the wish of its record. -/
theorem Managed.getfl (h : s.Managed fd ctx f) :
    isNonblock (s.fcntlGetfl fd) = ctx.userNonblock := by
  have hpasses : ctx.passes = false := by
    rw [FdCtx.passes, h.isClosed, h.isSocket]
    rfl
  simp only [fcntlGetfl, h.found, hpasses]
  cases hu : ctx.userNonblock with
  | true => simp
  | false => simp

theorem Managed.callAll (h : s.Managed fd ctx f) :
    ∀ ws : List Wish, ∃ ctx f', (s.callAll fd ws).Managed fd ctx f' := by
  intro ws
  induction ws generalizing s ctx f with
  | nil => exact ⟨ctx, f, h⟩
  | cons w ws ih =>
      obtain ⟨f', hf', -⟩ := h.call w
      exact ih hf'

theorem callAll_append (s : Descriptors) (fd : Nat) (ws : List Wish) (w : Wish) :
    s.callAll fd (ws ++ [w]) = (s.callAll fd ws).call fd w := by
  rw [callAll, List.foldl_append]
  rfl

/-- After any calls `F_GETFL` reports what was asked for last. -/
theorem callAll_getfl (h : s.Managed fd ctx f) (ws : List Wish) (w : Wish) :
    isNonblock ((s.callAll fd (ws ++ [w])).fcntlGetfl fd) = w.nonblock := by
  obtain ⟨ctx', f', h'⟩ := h.callAll ws
  obtain ⟨f'', hw, -⟩ := h'.call w
  rw [callAll_append]
  exact hw.getfl

/-- After any calls the kernel's flag is set exactly if the last one was no
`FIONBIO` with the value 0. -/
theorem callAll_kernel (h : s.Managed fd ctx f) (ws : List Wish) (w : Wish) :
    isNonblock ((s.callAll fd (ws ++ [w])).kernel.getfl fd) = true ↔ w ≠ .fionbio 0#32 := by
  obtain ⟨ctx', f', h'⟩ := h.callAll ws
  obtain ⟨f'', hw, hflag⟩ := h'.call w
  rw [callAll_append, Kernel.getfl, hw.opened]
  exact hflag

/-- **The two flags.**  On a managed socket, after every one of a sequence of
calls the kernel's flag is set and `F_GETFL` reports the user's last wish,
exactly if no call is an `ioctl(FIONBIO)` with the value 0. -/
theorem nonblock_iff (h : s.Managed fd ctx f) (ws : List Wish) :
    (∀ ws₁ w ws₂, ws = ws₁ ++ w :: ws₂ →
      isNonblock ((s.callAll fd (ws₁ ++ [w])).kernel.getfl fd) = true ∧
      isNonblock ((s.callAll fd (ws₁ ++ [w])).fcntlGetfl fd) = w.nonblock) ↔
    Wish.fionbio 0#32 ∉ ws := by
  constructor
  · intro hall hmem
    obtain ⟨ws₁, ws₂, rfl⟩ := List.append_of_mem hmem
    exact (callAll_kernel h ws₁ _).mp (hall ws₁ _ ws₂ rfl).1 rfl
  · rintro hno ws₁ w ws₂ rfl
    refine ⟨(callAll_kernel h ws₁ w).mpr ?_, callAll_getfl h ws₁ w⟩
    rintro rfl
    exact hno (List.mem_append_right _ List.mem_cons_self)

/-- A socket that was opened as number 5 and has got its record. -/
def opened : Descriptors :=
  let k : Kernel := fun fd => if fd = 5 then some ⟨true, 2#32⟩ else none
  let (mgr, kernel) := FdManager.create.getOrCreate k 5
  { mgr, kernel }

theorem opened_managed : ∃ ctx f, opened.Managed 5 ctx f :=
  ⟨_, _, ⟨rfl, rfl, rfl, rfl, rfl⟩⟩

/-- `ioctl(FIONBIO)` with 0 makes the kernel's descriptor block. -/
theorem fionbio_blocks :
    ¬ ∀ (s : Descriptors) (fd : Nat) (ctx : FdCtx) (f : File) (ws₁ : List Wish) (w : Wish),
      s.Managed fd ctx f →
      isNonblock ((s.callAll fd (ws₁ ++ [w])).kernel.getfl fd) = true ∧
      isNonblock ((s.callAll fd (ws₁ ++ [w])).fcntlGetfl fd) = w.nonblock := by
  intro h
  obtain ⟨ctx, f, hm⟩ := opened_managed
  have hset := (h opened 5 ctx f [] (.fionbio 0#32) hm).1
  exact absurd hset (by decide)

/-- The other calls, with any arguments the user likes. -/
theorem nonblock_iff_setfl :
    ∃ ctx f, opened.Managed 5 ctx f ∧
      ∀ ws₁ w ws₂, [Wish.setfl 0#32, .fionbio 1#32, .setfl 0x802#32] = ws₁ ++ w :: ws₂ →
        isNonblock ((opened.callAll 5 (ws₁ ++ [w])).kernel.getfl 5) = true ∧
        isNonblock ((opened.callAll 5 (ws₁ ++ [w])).fcntlGetfl 5) = w.nonblock := by
  obtain ⟨ctx, f, hm⟩ := opened_managed
  exact ⟨ctx, f, hm, (nonblock_iff hm _).mpr (by decide)⟩

end Descriptors

end CoLib
