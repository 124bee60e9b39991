/-
# `CoLib.Lib.Scanner` — a table-driven scanner that is fed in pieces

A scanner moves by a table: each byte selects a list of actions and the next
state, or is refused.  The actions work on a memory of their own and may throw;
the table never looks at that memory.  So a run is two passes: the *walk*
through the table, which gives the actions with their positions, and the fold
of the actions over the memory.

**Proved here.**

    scan = walk, then fold of the actions              (`scan_eq_walk`)
    walk of `xs ++ ys` = walk of `xs`, then of `ys`     (`walk_append_more`, `walk_append_stop`)
    walk at another position = the same walk, shifted   (`walk_shift`)

A text is scanned part by part (`Passes`): each part leads from one state to the next,
whatever follows it, and does one thing to the data in the memory.

The last section follows the registers that the actions write and read: a use
is the pair of the position where the register was last written and the
position where it is read (`uses`).  Two folds of one trace, at different
positions, stay related if every action keeps the relation where the registers
it reads are in order (`fold_sim`).
-/
import Mathlib

namespace CoLib.Lib.Scanner

variable {Q A M N R : Type*}

/-- The table: the actions and the next state for a byte, `none` when the byte is
refused.  The scanner stops in a final state. -/
structure Table (Q A : Type*) where
  next : Q → UInt8 → Option (List A × Q)
  final : Q → Bool

/-- Why a scan stopped: the bytes ran out, a final state was entered, or a byte
was refused. -/
inductive Stop (Q : Type*) where
  | more (q : Q)
  | halt (q : Q)
  | reject
  deriving DecidableEq, Repr

/-- Run the actions of one transition in order. -/
def runActs (act : Nat → A → M → Option M) (p : Nat) : List A → M → Option M
  | [], m => some m
  | a :: as, m => (act p a m).bind (runActs act p as)

/-- Scan the bytes from position `p`: the memory, the number of bytes consumed
and the reason for the stop; `none` when an action throws.  The byte that leads
to a final state is consumed, the byte that is refused is not. -/
def scan (T : Table Q A) (act : Nat → A → M → Option M) :
    Nat → Q → M → List UInt8 → Option (M × Nat × Stop Q)
  | _, q, m, [] => some (m, 0, .more q)
  | p, q, m, c :: cs =>
      match T.next q c with
      | none => some (m, 0, .reject)
      | some (as, q') =>
          (runActs act p as m).bind fun m =>
            if T.final q' then some (m, 1, .halt q')
            else (scan T act (p + 1) q' m cs).map fun (m, n, s) => (m, n + 1, s)

/-! ## The walk -/

/-- What a scan does apart from the memory. -/
structure Walk (Q A : Type*) where
  trace : List (Nat × A)
  used : Nat
  stop : Stop Q
  deriving DecidableEq

/-- The walk through the table from position `p`. -/
def walk (T : Table Q A) : Nat → Q → List UInt8 → Walk Q A
  | _, q, [] => ⟨[], 0, .more q⟩
  | p, q, c :: cs =>
      match T.next q c with
      | none => ⟨[], 0, .reject⟩
      | some (as, q') =>
          if T.final q' then ⟨as.map fun a => (p, a), 1, .halt q'⟩
          else
            let w := walk T (p + 1) q' cs
            ⟨(as.map fun a => (p, a)) ++ w.trace, w.used + 1, w.stop⟩

section Cons

variable {T : Table Q A} {p : Nat} {q q' : Q} {c : UInt8} {as : List A}

theorem walk_refused (h : T.next q c = none) (cs : List UInt8) :
    walk T p q (c :: cs) = ⟨[], 0, .reject⟩ := by
  simp only [walk, h]

theorem walk_final (h : T.next q c = some (as, q')) (hf : T.final q' = true)
    (cs : List UInt8) :
    walk T p q (c :: cs) = ⟨as.map fun a => (p, a), 1, .halt q'⟩ := by
  simp only [walk, h, hf, if_true]

theorem walk_next (h : T.next q c = some (as, q')) (hf : T.final q' = false)
    (cs : List UInt8) :
    walk T p q (c :: cs) =
      ⟨(as.map fun a => (p, a)) ++ (walk T (p + 1) q' cs).trace,
        (walk T (p + 1) q' cs).used + 1, (walk T (p + 1) q' cs).stop⟩ := by
  simp only [walk, h, hf, Bool.false_eq_true, if_false]

/-- The three things one byte can do. -/
theorem walk_cases (T : Table Q A) (p : Nat) (q : Q) (c : UInt8) (cs : List UInt8) :
    (T.next q c = none ∧ walk T p q (c :: cs) = ⟨[], 0, .reject⟩) ∨
    (∃ as q', T.next q c = some (as, q') ∧ T.final q' = true ∧
      walk T p q (c :: cs) = ⟨as.map fun a => (p, a), 1, .halt q'⟩) ∨
    (∃ as q', T.next q c = some (as, q') ∧ T.final q' = false ∧
      walk T p q (c :: cs) =
        ⟨(as.map fun a => (p, a)) ++ (walk T (p + 1) q' cs).trace,
          (walk T (p + 1) q' cs).used + 1, (walk T (p + 1) q' cs).stop⟩) := by
  cases hn : T.next q c with
  | none => exact .inl ⟨rfl, walk_refused hn cs⟩
  | some step =>
    obtain ⟨as, q'⟩ := step
    cases hf : T.final q' with
    | true => exact .inr (.inl ⟨as, q', rfl, hf, walk_final hn hf cs⟩)
    | false => exact .inr (.inr ⟨as, q', rfl, hf, walk_next hn hf cs⟩)

end Cons

/-- Run the actions of a trace in order. -/
def fold (act : Nat → A → M → Option M) : List (Nat × A) → M → Option M
  | [], m => some m
  | (p, a) :: t, m => (act p a m).bind (fold act t)

theorem fold_append (act : Nat → A → M → Option M) (t t' : List (Nat × A)) (m : M) :
    fold act (t ++ t') m = (fold act t m).bind (fold act t') := by
  induction t generalizing m with
  | nil => rfl
  | cons pa t ih =>
      obtain ⟨p, a⟩ := pa
      simp only [List.cons_append, fold, Option.bind_assoc]
      exact congrArg _ (funext fun m => ih m)

theorem runActs_eq_fold (act : Nat → A → M → Option M) (p : Nat) (as : List A) (m : M) :
    runActs act p as m = fold act (as.map fun a => (p, a)) m := by
  induction as generalizing m with
  | nil => rfl
  | cons a as ih =>
      show (act p a m).bind (runActs act p as) = (act p a m).bind _
      exact congrArg _ (funext fun m => ih m)

/-- A scan is the walk through the table, then its actions. -/
theorem scan_eq_walk (T : Table Q A) (act : Nat → A → M → Option M) (p : Nat) (q : Q) (m : M)
    (cs : List UInt8) :
    scan T act p q m cs =
      (fold act (walk T p q cs).trace m).map fun m =>
        (m, (walk T p q cs).used, (walk T p q cs).stop) := by
  induction cs generalizing p q m with
  | nil => rfl
  | cons c cs ih =>
      rcases walk_cases T p q c cs with ⟨hn, hw⟩ | ⟨as, q', hn, hf, hw⟩ | ⟨as, q', hn, hf, hw⟩
      · simp only [scan, hn, hw, fold, Option.map_some]
      · simp only [scan, hn, hf, hw, if_true, runActs_eq_fold]
        cases fold act (as.map fun a => (p, a)) m <;> rfl
      · simp only [scan, hn, hf, hw, Bool.false_eq_true, if_false, fold_append, runActs_eq_fold,
          ih]
        cases fold act (as.map fun a => (p, a)) m with
        | none => rfl
        | some m' =>
            simp only [Option.bind_some, Option.map_map]
            rfl

theorem walk_used_le (T : Table Q A) (p : Nat) (q : Q) (cs : List UInt8) :
    (walk T p q cs).used ≤ cs.length := by
  induction cs generalizing p q with
  | nil => exact Nat.le_refl _
  | cons c cs ih =>
      rcases walk_cases T p q c cs with ⟨-, hw⟩ | ⟨as, q', -, -, hw⟩ | ⟨as, q', -, -, hw⟩
      · rw [hw]
        exact Nat.zero_le _
      · rw [hw]
        exact Nat.succ_le_succ (Nat.zero_le _)
      · rw [hw]
        exact Nat.succ_le_succ (ih (p + 1) q')

theorem walk_used_of_more {T : Table Q A} {p : Nat} {q q' : Q} {cs : List UInt8}
    (h : (walk T p q cs).stop = .more q') : (walk T p q cs).used = cs.length := by
  induction cs generalizing p q with
  | nil => rfl
  | cons c cs ih =>
      rcases walk_cases T p q c cs with ⟨-, hw⟩ | ⟨as, q₁, -, -, hw⟩ | ⟨as, q₁, -, -, hw⟩
      · rw [hw] at h
        cases h
      · rw [hw] at h
        cases h
      · rw [hw] at h ⊢
        exact congrArg (· + 1) (ih h)

/-- A scan that goes on is not in a final state. -/
theorem walk_more_not_final {T : Table Q A} {p : Nat} {q q' : Q} {cs : List UInt8}
    (hq : T.final q = false) (h : (walk T p q cs).stop = .more q') : T.final q' = false := by
  induction cs generalizing p q with
  | nil =>
      cases h
      exact hq
  | cons c cs ih =>
      rcases walk_cases T p q c cs with ⟨-, hw⟩ | ⟨as, q₁, -, -, hw⟩ | ⟨as, q₁, -, hf, hw⟩
      · rw [hw] at h
        cases h
      · rw [hw] at h
        cases h
      · rw [hw] at h
        exact ih hf h

theorem walk_halt_final {T : Table Q A} {p : Nat} {q q' : Q} {cs : List UInt8}
    (h : (walk T p q cs).stop = .halt q') : T.final q' = true := by
  induction cs generalizing p q with
  | nil => cases h
  | cons c cs ih =>
      rcases walk_cases T p q c cs with ⟨-, hw⟩ | ⟨as, q₁, -, hf, hw⟩ | ⟨as, q₁, -, -, hw⟩
      · rw [hw] at h
        cases h
      · rw [hw] at h
        cases h
        exact hf
      · rw [hw] at h
        exact ih h

/-- When the bytes run out, more bytes continue the walk. -/
theorem walk_append_more {T : Table Q A} {p : Nat} {q q' : Q} {xs : List UInt8}
    (h : (walk T p q xs).stop = .more q') (ys : List UInt8) :
    walk T p q (xs ++ ys) =
      ⟨(walk T p q xs).trace ++ (walk T (p + xs.length) q' ys).trace,
        xs.length + (walk T (p + xs.length) q' ys).used,
        (walk T (p + xs.length) q' ys).stop⟩ := by
  induction xs generalizing p q with
  | nil =>
      cases h
      simp [walk]
  | cons c xs ih =>
      rcases walk_cases T p q c xs with ⟨-, hw⟩ | ⟨as, q₁, -, -, hw⟩ | ⟨as, q₁, hn, hf, hw⟩
      · rw [hw] at h
        cases h
      · rw [hw] at h
        cases h
      · rw [hw] at h ⊢
        have hpos : p + 1 + xs.length = p + (xs.length + 1) := by omega
        rw [List.cons_append, walk_next hn hf, ih h, hpos, List.append_assoc, List.length_cons]
        simp only [Walk.mk.injEq, true_and, and_true]
        omega

/-- When the walk stopped earlier, more bytes change nothing. -/
theorem walk_append_stop {T : Table Q A} {p : Nat} {q : Q} {xs : List UInt8}
    (h : ∀ q', (walk T p q xs).stop ≠ .more q') (ys : List UInt8) :
    walk T p q (xs ++ ys) = walk T p q xs := by
  induction xs generalizing p q with
  | nil => exact absurd rfl (h q)
  | cons c xs ih =>
      rcases walk_cases T p q c xs with ⟨hn, hw⟩ | ⟨as, q₁, hn, hf, hw⟩ | ⟨as, q₁, hn, hf, hw⟩
      · rw [hw, List.cons_append, walk_refused hn]
      · rw [hw, List.cons_append, walk_final hn hf]
      · rw [hw] at h ⊢
        rw [List.cons_append, walk_next hn hf, ih h]

/-! ## Scans that go on -/

/-- The scan takes all of `xs` and goes on in state `q'` with memory `m'`. -/
def Scans (T : Table Q A) (act : Nat → A → M → Option M) (p : Nat) (q : Q) (m : M)
    (xs : List UInt8) (q' : Q) (m' : M) : Prop :=
  scan T act p q m xs = some (m', xs.length, .more q')

section Scans

variable {T : Table Q A} {act : Nat → A → M → Option M} {p : Nat} {q q₁ q' : Q} {m m₁ m' : M}
  {c : UInt8} {xs ys : List UInt8} {as : List A}

theorem Scans.nil : Scans T act p q m [] q m := rfl

/-- One byte, then the others. -/
theorem Scans.cons (hn : T.next q c = some (as, q₁)) (hf : T.final q₁ = false)
    (hr : runActs act p as m = some m₁) (h : Scans T act (p + 1) q₁ m₁ xs q' m') :
    Scans T act p q m (c :: xs) q' m' := by
  rw [Scans] at h ⊢
  simp only [scan, hn, hf, hr, h, Option.bind_some, Bool.false_eq_true, if_false, Option.map_some,
    List.length_cons]

/-- A scan that goes on continues on the bytes after it. -/
theorem Scans.scan_append (h : Scans T act p q m xs q₁ m₁) (ys : List UInt8) :
    scan T act p q m (xs ++ ys) = (scan T act (p + xs.length) q₁ m₁ ys).map
      fun (m', n, s) => (m', xs.length + n, s) := by
  rw [Scans, scan_eq_walk] at h
  obtain ⟨m₂, hm, heq⟩ := Option.map_eq_some_iff.mp h
  obtain ⟨rfl, -, hstop⟩ : m₂ = m₁ ∧ (walk T p q xs).used = xs.length ∧
      (walk T p q xs).stop = .more q₁ := by simpa only [Prod.mk.injEq] using heq
  rw [scan_eq_walk, scan_eq_walk, walk_append_more hstop, fold_append, hm, Option.bind_some,
    Option.map_map]
  rfl

theorem Scans.append (h : Scans T act p q m xs q₁ m₁)
    (h' : Scans T act (p + xs.length) q₁ m₁ ys q' m') : Scans T act p q m (xs ++ ys) q' m' := by
  rw [Scans] at h' ⊢
  rw [h.scan_append, h', Option.map_some, List.length_append]

/-- A state that the bytes lead back to, with no action. -/
theorem Scans.loop (hn : ∀ c ∈ xs, T.next q c = some ([], q)) (hf : T.final q = false) :
    Scans T act p q m xs q m := by
  induction xs generalizing p with
  | nil => exact .nil
  | cons c xs ih =>
      exact .cons (hn c List.mem_cons_self) hf rfl
        (ih fun c hc => hn c (List.mem_cons_of_mem _ hc))

end Scans

/-- The trace of a walk, moved by `o` positions. -/
def shift (o : Nat) (t : List (Nat × A)) : List (Nat × A) :=
  t.map fun pa => (pa.1 + o, pa.2)

/-- The walk does not depend on the position it starts at. -/
theorem walk_shift (T : Table Q A) (o p : Nat) (q : Q) (cs : List UInt8) :
    walk T (p + o) q cs =
      ⟨shift o (walk T p q cs).trace, (walk T p q cs).used, (walk T p q cs).stop⟩ := by
  induction cs generalizing p q with
  | nil => rfl
  | cons c cs ih =>
      have ih := ih (p + 1)
      simp only [Nat.add_right_comm p 1 o] at ih
      rcases walk_cases T p q c cs with ⟨hn, hw⟩ | ⟨as, q₁, hn, hf, hw⟩ | ⟨as, q₁, hn, hf, hw⟩
      · rw [hw, walk_refused hn]
        rfl
      · rw [hw, walk_final hn hf]
        simp [shift]
      · rw [hw, walk_next hn hf, ih q₁]
        simp [shift]

/-! ## The parts of a text -/

section Parts

variable {D : Type*} {T : Table Q A} {act : List UInt8 → Nat → A → M → Option M}
  {clean : M → Prop} {data : M → D} {pre xs ys : List UInt8} {q q₁ q' : Q} {f g : D → D}

/-- After `pre`, the scanner takes `xs` from state `q` to state `q'`, whatever follows; a
clean memory stays clean, and `f` is what becomes of its data. -/
def Passes (T : Table Q A) (act : List UInt8 → Nat → A → M → Option M) (clean : M → Prop)
    (data : M → D) (pre xs : List UInt8) (q q' : Q) (f : D → D) : Prop :=
  ∀ rest m, clean m → ∃ m', Scans T (act (pre ++ xs ++ rest)) pre.length q m xs q' m' ∧
    clean m' ∧ data m' = f (data m)

theorem Passes.trans (h : Passes T act clean data pre xs q q₁ f)
    (h' : Passes T act clean data (pre ++ xs) ys q₁ q' g) :
    Passes T act clean data pre (xs ++ ys) q q' (g ∘ f) := by
  intro rest m hm
  obtain ⟨m₁, h₁, hm₁, hd₁⟩ := h (ys ++ rest) m hm
  obtain ⟨m', h₂, hm', hd'⟩ := h' rest m₁ hm₁
  have hbuf : pre ++ (xs ++ ys) ++ rest = pre ++ xs ++ (ys ++ rest) := by simp
  have hbuf' : pre ++ xs ++ ys ++ rest = pre ++ xs ++ (ys ++ rest) := by simp
  rw [hbuf', List.length_append] at h₂
  rw [hbuf]
  exact ⟨m', h₁.append h₂, hm', by rw [hd', hd₁, Function.comp_apply]⟩

theorem Passes.congr (h : Passes T act clean data pre xs q q' f) (hxs : xs = ys)
    (hfg : ∀ d, f d = g d) : Passes T act clean data pre ys q q' g := by
  subst hxs
  intro rest m hm
  obtain ⟨m', h₁, hm', hd⟩ := h rest m hm
  exact ⟨m', h₁, hm', hd.trans (hfg _)⟩

/-- A list of lines that each lead back to the state before them. -/
theorem Passes.lines {α : Type*} {line : α → List UInt8} {g : α → D → D} {es : List α}
    (h : ∀ e ∈ es, ∀ pre, Passes T act clean data pre (line e) q q (g e)) (pre : List UInt8) :
    Passes T act clean data pre (es.map line).flatten q q
      fun d => es.foldl (fun d e => g e d) d := by
  induction es generalizing pre with
  | nil => exact fun rest m hm => ⟨m, .nil, hm, rfl⟩
  | cons e es ih =>
      exact (h e List.mem_cons_self pre).trans
        (ih (fun e he => h e (List.mem_cons_of_mem _ he)) _)

/-- A fixed text: the walk is computed from its start. -/
theorem Scans.fixed {act : Nat → A → M → Option M} {p : Nat} {m m' : M} (trace : List (Nat × A))
    (hwalk : walk T 0 q xs = ⟨trace, xs.length, .more q'⟩)
    (hfold : fold act (shift p trace) m = some m') : Scans T act p q m xs q' m' := by
  have hshift := walk_shift T p 0 q xs
  rw [Nat.zero_add, hwalk] at hshift
  rw [Scans, scan_eq_walk, hshift, hfold]
  rfl

/-- Actions at fixed places of a fixed text. -/
theorem Passes.fixed (trace : List (Nat × A))
    (hwalk : walk T 0 q xs = ⟨trace, xs.length, .more q'⟩)
    (hrun : ∀ rest m, clean m → ∃ m', fold (act (pre ++ xs ++ rest)) (shift pre.length trace) m
      = some m' ∧ clean m' ∧ data m' = f (data m)) :
    Passes T act clean data pre xs q q' f := by
  intro rest m hm
  obtain ⟨m', hfold, hm', hd⟩ := hrun rest m hm
  exact ⟨m', .fixed trace hwalk hfold, hm', hd⟩

end Parts

/-- Every action of a walk stands at a byte that was consumed, and is one that the
table has for that byte. -/
theorem walk_trace_mem {T : Table Q A} {p : Nat} {q : Q} {cs : List UInt8} {i : Nat} {a : A}
    (h : (i, a) ∈ (walk T p q cs).trace) :
    ∃ j c, i = p + j ∧ cs[j]? = some c ∧ ∃ q₁ as q', T.next q₁ c = some (as, q') ∧ a ∈ as := by
  induction cs generalizing p q with
  | nil => cases h
  | cons c cs ih =>
      have here : ∀ {as q'}, T.next q c = some (as, q') → (i, a) ∈ as.map (fun a => (p, a)) →
          ∃ j c', i = p + j ∧ (c :: cs)[j]? = some c' ∧
            ∃ q₁ as q', T.next q₁ c' = some (as, q') ∧ a ∈ as := by
        intro as q' hn hmem
        obtain ⟨b, hb, heq⟩ := List.mem_map.mp hmem
        cases heq
        exact ⟨0, c, rfl, rfl, q, as, q', hn, hb⟩
      rcases walk_cases T p q c cs with ⟨-, hw⟩ | ⟨as, q₁, hn, -, hw⟩ | ⟨as, q₁, hn, -, hw⟩
      · rw [hw] at h
        cases h
      · rw [hw] at h
        exact here hn h
      · rw [hw] at h
        rcases List.mem_append.mp h with h | h
        · exact here hn h
        · obtain ⟨j, c', hj, hc, hrest⟩ := ih h
          exact ⟨j + 1, c', by omega, hc, hrest⟩

/-- What every action at a position inside the bytes keeps is kept by a fold of actions
at such positions. -/
theorem fold_kept {act : Nat → A → M → Option M} {inv : M → Prop} {n : Nat}
    (hkeep : ∀ {i a m m'}, i < n → inv m → act i a m = some m' → inv m') {t : List (Nat × A)}
    (ht : ∀ pa ∈ t, pa.1 < n) {m m' : M} (hm : inv m) (hfold : fold act t m = some m') :
    inv m' := by
  induction t generalizing m with
  | nil =>
      obtain rfl := Option.some.inj hfold
      exact hm
  | cons pa t ih =>
      obtain ⟨m₁, h₁, hfold⟩ := Option.bind_eq_some_iff.mp hfold
      exact ih (fun x hx => ht x (List.mem_cons_of_mem _ hx))
        (hkeep (ht pa List.mem_cons_self) hm h₁) hfold

/-- It is kept by a scan, which does not consume more than the bytes. -/
theorem scan_kept {T : Table Q A} {act : Nat → A → M → Option M} {inv : M → Prop} {q : Q}
    {cs : List UInt8} {m : M} {r : M × Nat × Stop Q}
    (hkeep : ∀ {i a m m'}, i < cs.length → inv m → act i a m = some m' → inv m') (hm : inv m)
    (hscan : scan T act 0 q m cs = some r) : inv r.1 ∧ r.2.1 ≤ cs.length := by
  rw [scan_eq_walk] at hscan
  obtain ⟨m', hfold, rfl⟩ := Option.map_eq_some_iff.mp hscan
  refine ⟨fold_kept hkeep ?_ hm hfold, walk_used_le T 0 q cs⟩
  rintro ⟨i, a⟩ hmem
  obtain ⟨j, c, rfl, hget, -⟩ := walk_trace_mem hmem
  rw [Nat.zero_add]
  exact (List.getElem?_eq_some_iff.mp hget).1

/-! ## Registers and the positions between which they are used -/

section Uses

variable [DecidableEq R] (writes reads : A → List R)

/-- Where each register was last written, after an action at position `p`. -/
def written (p : Nat) (a : A) (since : R → Nat) : R → Nat :=
  fun r => if r ∈ writes a then p else since r

/-- Where each register was last written, after a trace. -/
def sinceAfter : (R → Nat) → List (Nat × A) → R → Nat
  | since, [] => since
  | since, (p, a) :: t => sinceAfter (written writes p a since) t

/-- The uses of a trace: where a register was written and where it is read. -/
def uses : (R → Nat) → List (Nat × A) → List (Nat × Nat)
  | _, [] => []
  | since, (p, a) :: t =>
      (reads a).map (fun r => (since r, p)) ++ uses (written writes p a since) t

/-- A property of the registers' last writes holds at every action of a trace. -/
def Along (good : (R → Nat) → Nat → A → Prop) : (R → Nat) → List (Nat × A) → Prop
  | _, [] => True
  | since, (p, a) :: t => good since p a ∧ Along good (written writes p a since) t

variable {writes reads} {good good' : (R → Nat) → Nat → A → Prop} {since : R → Nat}

theorem Along.append {t t' : List (Nat × A)} :
    Along writes good since (t ++ t') ↔
      Along writes good since t ∧ Along writes good (sinceAfter writes since t) t' := by
  induction t generalizing since with
  | nil => exact ⟨fun h => ⟨trivial, h⟩, fun h => h.2⟩
  | cons pa t ih => exact (and_congr_right fun _ => ih).trans and_assoc.symm

theorem Along.and {t : List (Nat × A)} (h : Along writes good since t)
    (h' : Along writes good' since t) :
    Along writes (fun since p a => good since p a ∧ good' since p a) since t := by
  induction t generalizing since with
  | nil => trivial
  | cons pa t ih => exact ⟨⟨h.1, h'.1⟩, ih h.2 h'.2⟩

theorem Along.imp (himp : ∀ {since p a}, good since p a → good' since p a)
    {t : List (Nat × A)} (h : Along writes good since t) : Along writes good' since t := by
  induction t generalizing since with
  | nil => trivial
  | cons pa t ih => exact ⟨himp h.1, ih h.2⟩

/-- What holds of all uses holds at every action. -/
theorem along_of_uses (ok : Nat → Nat → Prop) {t : List (Nat × A)}
    (h : ∀ u ∈ uses writes reads since t, ok u.1 u.2) :
    Along writes (fun since p a => ∀ r ∈ reads a, ok (since r) p) since t := by
  induction t generalizing since with
  | nil => trivial
  | cons pa t ih =>
      refine ⟨fun r hr => ?_, ih fun u hu => h u (List.mem_append_right _ hu)⟩
      exact h (since r, pa.1) (List.mem_append_left _ (List.mem_map_of_mem hr))

/-- Registers written before `n` and a trace before `n`: all were written before
`n`. -/
theorem sinceAfter_lt {n : Nat} {t : List (Nat × A)} (hs : ∀ r, since r < n)
    (ht : ∀ pa ∈ t, pa.1 < n) (r : R) : sinceAfter writes since t r < n := by
  induction t generalizing since with
  | nil => exact hs r
  | cons pa t ih =>
      obtain ⟨p, a⟩ := pa
      refine ih (fun r => ?_) fun pa hpa => ht pa (List.mem_cons_of_mem _ hpa)
      have hp : p < n := ht (p, a) List.mem_cons_self
      show (if r ∈ writes a then p else since r) < n
      split
      · exact hp
      · exact hs r

/-- An invariant of the states that the table keeps gives a property of every
action of a walk. -/
theorem walk_along {T : Table Q A} {inv : Q → Nat → (R → Nat) → Prop}
    (hstep : ∀ {q p since c as q'}, inv q p since → T.next q c = some (as, q') →
      Along writes good since (as.map fun a => (p, a)) ∧
        (T.final q' = false → inv q' (p + 1) (sinceAfter writes since (as.map fun a => (p, a)))))
    {q : Q} {p : Nat} (cs : List UInt8) (h : inv q p since) :
    Along writes good since (walk T p q cs).trace := by
  induction cs generalizing p q since with
  | nil => trivial
  | cons c cs ih =>
      rcases walk_cases T p q c cs with ⟨-, hw⟩ | ⟨as, q', hn, -, hw⟩ | ⟨as, q', hn, hf, hw⟩
      · rw [hw]
        trivial
      · rw [hw]
        exact (hstep h hn).1
      · rw [hw]
        exact Along.append.mpr ⟨(hstep h hn).1, ih ((hstep h hn).2 hf)⟩

/-- Two folds of one trace, the first with positions moved by `o`: what one
action keeps, the whole trace keeps. -/
theorem fold_sim {act : Nat → A → M → Option M} {act' : Nat → A → N → Option N} {o : Nat}
    {rel : (R → Nat) → M → N → Prop} {ok : Nat → A → Prop}
    (hstep : ∀ {since p a m n m'}, rel since m n → ok p a → good since (p + o) a →
      act (p + o) a m = some m' →
      ∃ n', act' p a n = some n' ∧ rel (written writes (p + o) a since) m' n')
    {t : List (Nat × A)} {m m' : M} {n : N} (hrel : rel since m n)
    (hok : ∀ pa ∈ t, ok pa.1 pa.2) (hgood : Along writes good since (shift o t))
    (hfold : fold act (shift o t) m = some m') :
    ∃ n', fold act' t n = some n' ∧ rel (sinceAfter writes since (shift o t)) m' n' := by
  induction t generalizing since m n with
  | nil =>
      cases hfold
      exact ⟨n, rfl, hrel⟩
  | cons pa t ih =>
      obtain ⟨p, a⟩ := pa
      obtain ⟨m₁, hm₁, hfold⟩ := Option.bind_eq_some_iff.mp hfold
      obtain ⟨n₁, hn₁, hrel₁⟩ := hstep hrel (hok (p, a) List.mem_cons_self) hgood.1 hm₁
      obtain ⟨n', hn', hrel'⟩ := ih hrel₁ (fun pa hpa => hok pa (List.mem_cons_of_mem _ hpa))
        hgood.2 hfold
      exact ⟨n', by rw [fold, hn₁, Option.bind_some, hn'], hrel'⟩

end Uses

end CoLib.Lib.Scanner
