/-
# `CoLib.Lib.Grammar` — grammars of bytes, and automata that keep to them

An expression has sets of bytes, sequences, alternatives, repetitions, and names of rules;
`Derives` is its language.  A set of bytes is a number, whose bits are the bytes.

A list of expressions stands for texts that they derive one behind the other.  `heads` are
the bytes such a text can begin with, each with the list for what follows.

**Proved here.**

    a list for each state, and the list behind a byte        an automaton accepts only what
      is left by one in front of it                      ⇒     is derived  (`derives_of_run`)
    the states behind a set of states, for each set of     a derived text leads from the one
      bytes, put together along an expression            ⇒     set to the other  (`sweep_moves`)
-/
import Mathlib

namespace CoLib.Lib.Grammar

variable {R S : Type*}

/-! ## Sets of bytes -/

/-- The byte is in the set. -/
def has (m : Nat) (c : UInt8) : Bool :=
  m.testBit c.toNat

/-- The bytes from `lo` to `hi`. -/
def interval (lo hi : Nat) : Nat :=
  (1 <<< (hi + 1 - lo) - 1) <<< lo

/-- A single byte. -/
def byte (n : Nat) : Nat :=
  1 <<< n

theorem has_interval {lo hi : Nat} {c : UInt8} :
    has (interval lo hi) c = true ↔ lo ≤ c.toNat ∧ c.toNat ≤ hi := by
  rw [has, interval, Nat.testBit_shiftLeft, Nat.one_shiftLeft, Nat.testBit_two_pow_sub_one,
    Bool.and_eq_true, decide_eq_true_eq, decide_eq_true_eq]
  omega

theorem has_byte {n : Nat} {c : UInt8} : has (byte n) c = true ↔ c.toNat = n := by
  rw [has, byte, Nat.testBit_shiftLeft, Bool.and_eq_true, decide_eq_true_eq,
    Nat.testBit_one_eq_true_iff_self_eq_zero]
  omega

theorem has_or {m n : Nat} {c : UInt8} : has (m ||| n) c = (has m c || has n c) :=
  Nat.testBit_or ..

/-- `m` has no byte that `n` has not. -/
def within (m n : Nat) : Bool :=
  m &&& n == m

theorem has_of_within {m n : Nat} (h : within m n = true) {c : UInt8} (hc : has m c = true) :
    has n c = true := by
  rw [within, beq_iff_eq] at h
  rw [has, ← h, Nat.testBit_and, Bool.and_eq_true] at hc
  exact hc.2

/-! ## Languages -/

/-- An expression over rules with names in `R`. -/
inductive Expr (R : Type*) where
  | eps
  | bytes (m : Nat)
  | seq (a b : Expr R)
  | alt (a b : Expr R)
  | star (a : Expr R)
  | upTo (n : Nat) (a : Expr R)
  | rule (r : R)
  deriving DecidableEq

/-- The texts of an expression. -/
inductive Derives (G : R → Expr R) : Expr R → List UInt8 → Prop where
  | eps : Derives G .eps []
  | bytes {m : Nat} {c : UInt8} (h : has m c = true) : Derives G (.bytes m) [c]
  | seq {a b : Expr R} {u v : List UInt8} (ha : Derives G a u) (hb : Derives G b v) :
      Derives G (.seq a b) (u ++ v)
  | left {a b : Expr R} {w : List UInt8} (h : Derives G a w) : Derives G (.alt a b) w
  | right {a b : Expr R} {w : List UInt8} (h : Derives G b w) : Derives G (.alt a b) w
  | stop {a : Expr R} : Derives G (.star a) []
  | more {a : Expr R} {u v : List UInt8} (ha : Derives G a u) (hs : Derives G (.star a) v) :
      Derives G (.star a) (u ++ v)
  | none {n : Nat} {a : Expr R} : Derives G (.upTo n a) []
  | oneMore {n : Nat} {a : Expr R} {u v : List UInt8} (ha : Derives G a u)
      (hs : Derives G (.upTo n a) v) : Derives G (.upTo (n + 1) a) (u ++ v)
  | rule {r : R} {w : List UInt8} (h : Derives G (G r) w) : Derives G (.rule r) w

theorem Derives.of_rule {G : R → Expr R} {r : R} {w : List UInt8} (h : Derives G (.rule r) w) :
    Derives G (G r) w := by
  cases h with
  | rule h => exact h

theorem Derives.of_bytes {G : R → Expr R} {m : Nat} {w : List UInt8}
    (h : Derives G (.bytes m) w) : ∃ c, has m c = true ∧ w = [c] := by
  cases h with
  | bytes hc => exact ⟨_, hc, rfl⟩

theorem Derives.of_seq {G : R → Expr R} {a b : Expr R} {w : List UInt8}
    (h : Derives G (.seq a b) w) : ∃ u v, w = u ++ v ∧ Derives G a u ∧ Derives G b v := by
  cases h with
  | seq ha hb => exact ⟨_, _, rfl, ha, hb⟩

theorem Derives.of_alt {G : R → Expr R} {a b : Expr R} {w : List UInt8}
    (h : Derives G (.alt a b) w) : Derives G a w ∨ Derives G b w := by
  cases h with
  | left h => exact .inl h
  | right h => exact .inr h

theorem Derives.of_upTo_one {G : R → Expr R} {a : Expr R} {w : List UInt8}
    (h : Derives G (.upTo 1 a) w) : w = [] ∨ Derives G a w := by
  cases h with
  | none => exact .inl rfl
  | oneMore ha hs =>
      cases hs
      rw [List.append_nil]
      exact .inr ha

theorem Derives.star_cases {G : R → Expr R} {a : Expr R} {w : List UInt8}
    (h : Derives G (.star a) w) :
    w = [] ∨ ∃ u v, w = u ++ v ∧ Derives G a u ∧ Derives G (.star a) v := by
  cases h with
  | stop => exact .inl rfl
  | more ha hs => exact .inr ⟨_, _, rfl, ha, hs⟩

/-- Induction over a repetition. -/
theorem Derives.star_induction {G : R → Expr R} {a : Expr R} {P : List UInt8 → Prop}
    (hstop : P []) (hmore : ∀ u v, Derives G a u → Derives G (.star a) v → P v → P (u ++ v))
    {w : List UInt8} (h : Derives G (.star a) w) : P w := by
  generalize he : Expr.star a = e at h
  induction h with
  | stop => exact hstop
  | more ha hs _ ih =>
      obtain rfl := Expr.star.inj he
      exact hmore _ _ ha hs (ih rfl)
  | eps | bytes _ | seq _ _ | left _ | right _ | none | oneMore _ _ | rule _ => cases he

/-- The texts of a list of expressions. -/
def DerivesAll (G : R → Expr R) : List (Expr R) → List UInt8 → Prop
  | [], w => w = []
  | e :: k, w => ∃ u v, w = u ++ v ∧ Derives G e u ∧ DerivesAll G k v

section Lists

variable {G : R → Expr R} {e a b : Expr R} {k : List (Expr R)} {w : List UInt8}

theorem derivesAll_singleton : DerivesAll G [e] w ↔ Derives G e w := by
  constructor
  · rintro ⟨u, v, rfl, he, rfl⟩
    rwa [List.append_nil]
  · intro h
    exact ⟨w, [], (List.append_nil w).symm, h, rfl⟩

theorem derivesAll_eps (h : DerivesAll G k w) : DerivesAll G (.eps :: k) w :=
  ⟨[], w, rfl, .eps, h⟩

theorem derivesAll_seq (h : DerivesAll G (a :: b :: k) w) : DerivesAll G (.seq a b :: k) w := by
  obtain ⟨u, v, rfl, ha, u', v', rfl, hb, hk⟩ := h
  exact ⟨u ++ u', v', (List.append_assoc ..).symm, .seq ha hb, hk⟩

theorem derivesAll_left (h : DerivesAll G (a :: k) w) : DerivesAll G (.alt a b :: k) w := by
  obtain ⟨u, v, rfl, ha, hk⟩ := h
  exact ⟨u, v, rfl, .left ha, hk⟩

theorem derivesAll_right (h : DerivesAll G (b :: k) w) : DerivesAll G (.alt a b :: k) w := by
  obtain ⟨u, v, rfl, hb, hk⟩ := h
  exact ⟨u, v, rfl, .right hb, hk⟩

theorem derivesAll_more (h : DerivesAll G (a :: .star a :: k) w) :
    DerivesAll G (.star a :: k) w := by
  obtain ⟨u, v, rfl, ha, u', v', rfl, hs, hk⟩ := h
  exact ⟨u ++ u', v', (List.append_assoc ..).symm, .more ha hs, hk⟩

theorem derivesAll_stop (h : DerivesAll G k w) : DerivesAll G (.star a :: k) w :=
  ⟨[], w, rfl, .stop, h⟩

theorem derivesAll_oneMore {n : Nat} (h : DerivesAll G (a :: .upTo n a :: k) w) :
    DerivesAll G (.upTo (n + 1) a :: k) w := by
  obtain ⟨u, v, rfl, ha, u', v', rfl, hs, hk⟩ := h
  exact ⟨u ++ u', v', (List.append_assoc ..).symm, .oneMore ha hs, hk⟩

theorem derivesAll_none {n : Nat} (h : DerivesAll G k w) : DerivesAll G (.upTo n a :: k) w :=
  ⟨[], w, rfl, .none, h⟩

theorem derivesAll_rule {r : R} (h : DerivesAll G (G r :: k) w) :
    DerivesAll G (.rule r :: k) w := by
  obtain ⟨u, v, rfl, hr, hk⟩ := h
  exact ⟨u, v, rfl, .rule hr, hk⟩

end Lists

/-! ## The bytes of a text -/

/-- The expression has no byte that is not in `m`, apart from its rules. -/
def Expr.only (m : Nat) : Expr R → Bool
  | .eps => true
  | .bytes n => within n m
  | .seq a b => a.only m && b.only m
  | .alt a b => a.only m && b.only m
  | .star a => a.only m
  | .upTo _ a => a.only m
  | .rule _ => true

theorem Derives.only {G : R → Expr R} {m : Nat} (hG : ∀ r, (G r).only m = true) {e : Expr R}
    {w : List UInt8} (h : Derives G e w) : e.only m = true → ∀ c ∈ w, has m c = true := by
  induction h with
  | eps | stop | none => exact fun _ c hc => absurd hc List.not_mem_nil
  | bytes h =>
      intro he c hc
      obtain rfl := List.mem_singleton.mp hc
      exact has_of_within he h
  | seq _ _ iha ihb =>
      intro he c hc
      obtain ⟨ha, hb⟩ := Bool.and_eq_true_iff.mp he
      rcases List.mem_append.mp hc with hc | hc
      · exact iha ha c hc
      · exact ihb hb c hc
  | left _ ih => exact fun he => ih (Bool.and_eq_true_iff.mp he).1
  | right _ ih => exact fun he => ih (Bool.and_eq_true_iff.mp he).2
  | more _ _ iha ihs | oneMore _ _ iha ihs =>
      intro he c hc
      rcases List.mem_append.mp hc with hc | hc
      · exact iha he c hc
      · exact ihs he c hc
  | rule _ ih => exact fun _ => ih (hG _)

/-! ## What a text begins with -/

section Heads

variable (G : R → Expr R)

/-- An expression in front of a list, its sequences opened. -/
def push : Expr R → List (Expr R) → List (Expr R)
  | .eps, k => k
  | .seq a b, k => push a (push b k)
  | e, k => e :: k

/-- The first bytes of a list, each with what is left of the list; `n` bounds the rules that
are opened. -/
def heads : Nat → List (Expr R) → List (Nat × List (Expr R))
  | 0, _ => []
  | _ + 1, [] => []
  | n + 1, e :: k =>
      match e with
      | .eps => heads n k
      | .bytes m => [(m, k)]
      | .seq a b => heads n (push a (push b k))
      | .alt a b => heads n (push a k) ++ heads n (push b k)
      | .star a => heads n (push a (.star a :: k)) ++ heads n k
      | .upTo 0 _ => heads n k
      | .upTo (i + 1) a => heads n (push a (if i = 0 then k else .upTo i a :: k)) ++ heads n k
      | .rule r => heads n (push (G r) k)

/-- The list has the empty text. -/
def ends : Nat → List (Expr R) → Bool
  | 0, _ => false
  | _ + 1, [] => true
  | n + 1, e :: k =>
      match e with
      | .eps => ends n k
      | .bytes _ => false
      | .seq a b => ends n (a :: b :: k)
      | .alt a b => ends n (a :: k) || ends n (b :: k)
      | .star _ | .upTo _ _ => ends n k
      | .rule r => ends n (G r :: k)

variable {G} {w : List UInt8}

theorem derivesAll_push : ∀ {e : Expr R} {k : List (Expr R)}, DerivesAll G (push e k) w →
    DerivesAll G (e :: k) w := by
  intro e
  induction e generalizing w with
  | eps => exact derivesAll_eps
  | seq a b iha ihb =>
      intro k h
      obtain ⟨u, v, rfl, ha, hv⟩ := iha h
      exact derivesAll_seq ⟨u, v, rfl, ha, ihb hv⟩
  | bytes _ | alt _ _ | star _ | upTo _ _ | rule _ => exact id

theorem derivesAll_of_heads {c : UInt8} {m : Nat} {k' : List (Expr R)}
    (hc : has m c = true) (hw : DerivesAll G k' w) : ∀ (n : Nat) (k : List (Expr R)),
    (m, k') ∈ heads G n k → DerivesAll G k (c :: w) := by
  intro n
  induction n with
  | zero => exact fun k h => absurd h List.not_mem_nil
  | succ n ih =>
      intro k h
      cases k with
      | nil => exact absurd h List.not_mem_nil
      | cons e k =>
          cases e with
          | eps => exact derivesAll_eps (ih k h)
          | bytes m' =>
              obtain ⟨rfl, rfl⟩ := Prod.mk.inj (List.mem_singleton.mp h)
              exact ⟨[c], w, rfl, .bytes hc, hw⟩
          | seq a b =>
              obtain ⟨u, v, heq, ha, hv⟩ := derivesAll_push (ih _ h)
              exact derivesAll_seq ⟨u, v, heq, ha, derivesAll_push hv⟩
          | alt a b =>
              rcases List.mem_append.mp h with h | h
              · exact derivesAll_left (derivesAll_push (ih _ h))
              · exact derivesAll_right (derivesAll_push (ih _ h))
          | star a =>
              rcases List.mem_append.mp h with h | h
              · exact derivesAll_more (derivesAll_push (ih _ h))
              · exact derivesAll_stop (ih _ h)
          | upTo i a =>
              cases i with
              | zero => exact derivesAll_none (ih _ h)
              | succ i =>
                  rcases List.mem_append.mp h with h | h
                  · obtain ⟨u, v, heq, ha, hv⟩ := derivesAll_push (ih _ h)
                    refine derivesAll_oneMore ⟨u, v, heq, ha, ?_⟩
                    split at hv
                    · exact derivesAll_none hv
                    · exact hv
                  · exact derivesAll_none (ih _ h)
          | rule r => exact derivesAll_rule (derivesAll_push (ih _ h))

theorem derivesAll_of_ends : ∀ (n : Nat) (k : List (Expr R)), ends G n k = true →
    DerivesAll G k [] := by
  intro n
  induction n with
  | zero => exact fun k h => absurd h Bool.false_ne_true
  | succ n ih =>
      intro k h
      cases k with
      | nil => rfl
      | cons e k =>
          cases e with
          | eps => exact derivesAll_eps (ih k h)
          | bytes m => exact absurd h Bool.false_ne_true
          | seq a b => exact derivesAll_seq (ih _ h)
          | alt a b =>
              rcases Bool.or_eq_true_iff.mp h with h | h
              · exact derivesAll_left (ih _ h)
              · exact derivesAll_right (ih _ h)
          | star a => exact derivesAll_stop (ih _ h)
          | upTo i a => exact derivesAll_none (ih _ h)
          | rule r => exact derivesAll_rule (ih _ h)

end Heads

section Leaving

variable [DecidableEq R]

/-- The bytes behind which `k` is left. -/
def leaving (k : List (Expr R)) (hs : List (Nat × List (Expr R))) : Nat :=
  hs.foldr (fun h m => if h.2 = k then h.1 ||| m else m) 0

theorem exists_of_leaving {k : List (Expr R)} {hs : List (Nat × List (Expr R))} {c : UInt8}
    (h : has (leaving k hs) c = true) : ∃ m, (m, k) ∈ hs ∧ has m c = true := by
  induction hs with
  | nil =>
      rw [leaving, List.foldr_nil, has, Nat.zero_testBit] at h
      exact absurd h Bool.false_ne_true
  | cons head hs ih =>
      rw [leaving, List.foldr_cons] at h
      split at h
      · rename_i hk
        rw [has_or, Bool.or_eq_true] at h
        rcases h with h | h
        · exact ⟨head.1, hk ▸ List.mem_cons_self, h⟩
        · obtain ⟨m, hm, hc⟩ := ih h
          exact ⟨m, List.mem_cons_of_mem _ hm, hc⟩
      · obtain ⟨m, hm, hc⟩ := ih h
        exact ⟨m, List.mem_cons_of_mem _ hm, hc⟩

end Leaving

/-! ## Automata -/

/-- The state after a text. -/
def moves (move : S → UInt8 → Option S) (q : S) (w : List UInt8) : Option S :=
  w.foldlM move q

section Automata

variable [DecidableEq R] {G : R → Expr R} {move : S → UInt8 → Option S}

@[simp] theorem moves_nil (q : S) : moves move q [] = some q := rfl

theorem moves_cons (q : S) (c : UInt8) (w : List UInt8) :
    moves move q (c :: w) = (move q c).bind fun q' => moves move q' w := rfl

theorem moves_append (q : S) (u v : List UInt8) :
    moves move q (u ++ v) = (moves move q u).bind fun q' => moves move q' v :=
  List.foldlM_append

/-- An automaton accepts only what is derived, if each state that it reaches stands for lists
of which those of the next state are left, and an accepting state has one that may end. -/
theorem derives_of_run {n : Nat} {lists : S → List (List (Expr R))} {reach accept : S → Prop}
    {good : UInt8 → Prop}
    (hmove : ∀ q c q', reach q → good c → move q c = some q' → reach q' ∧
      ∀ k' ∈ lists q', has (leaving k' ((lists q).flatMap (heads G n))) c = true)
    (hend : ∀ q, reach q → accept q → ∃ k ∈ lists q, ends G n k = true) :
    ∀ (w : List UInt8) (q q' : S), reach q → (∀ c ∈ w, good c) → moves move q w = some q' →
      accept q' → ∃ k ∈ lists q, DerivesAll G k w := by
  intro w
  induction w with
  | nil =>
      intro q q' hq _ h haccept
      obtain rfl := Option.some.inj h
      obtain ⟨k, hk, hends⟩ := hend q hq haccept
      exact ⟨k, hk, derivesAll_of_ends n k hends⟩
  | cons c w ih =>
      intro q q' hq hw h haccept
      obtain ⟨q₁, hq₁, h⟩ := Option.bind_eq_some_iff.mp h
      obtain ⟨hreach, hback⟩ := hmove q c q₁ hq (hw c List.mem_cons_self) hq₁
      obtain ⟨k', hk', hderives⟩ :=
        ih q₁ q' hreach (fun c hc => hw c (List.mem_cons_of_mem _ hc)) h haccept
      obtain ⟨m, hm, hc⟩ := exists_of_leaving (hback k' hk')
      obtain ⟨k, hk, hm⟩ := List.mem_flatMap.mp hm
      exact ⟨k, hk, derivesAll_of_heads hc hderives n k hm⟩

end Automata

/-! ## The states that the texts of an expression lead to -/

section Sweep

/-- Every text of the expression leads from each state of `Q` to one of `A`. -/
def Leads (G : R → Expr R) (move : S → UInt8 → Option S) (e : Expr R) (Q A : List S) : Prop :=
  ∀ w, Derives G e w → ∀ q ∈ Q, ∃ q' ∈ A, moves move q w = some q'

variable {G : R → Expr R} {move : S → UInt8 → Option S} {a b : Expr R} {Q Q' A B : List S}

theorem Leads.mono (h : Leads G move a Q A) (hQ : Q' ⊆ Q) (hA : A ⊆ B) :
    Leads G move a Q' B := by
  intro w hw q hq
  obtain ⟨q', hq', hm⟩ := h w hw q (hQ hq)
  exact ⟨q', hA hq', hm⟩

theorem Leads.eps : Leads G move .eps Q Q := by
  intro w hw q hq
  cases hw
  exact ⟨q, hq, rfl⟩

theorem Leads.seq (ha : Leads G move a Q A) (hb : Leads G move b A B) :
    Leads G move (.seq a b) Q B := by
  intro w hw q hq
  cases hw with
  | seq hu hv =>
      obtain ⟨q₁, hq₁, hm₁⟩ := ha _ hu q hq
      obtain ⟨q', hq', hm'⟩ := hb _ hv q₁ hq₁
      exact ⟨q', hq', by rw [moves_append, hm₁, Option.bind_some, hm']⟩

theorem Leads.alt (ha : Leads G move a Q A) (hb : Leads G move b Q A) :
    Leads G move (.alt a b) Q A := by
  intro w hw q hq
  cases hw with
  | left hu => exact ha _ hu q hq
  | right hv => exact hb _ hv q hq

/-- A set of states that the expression leads back to. -/
theorem Leads.star (ha : Leads G move a Q Q) : Leads G move (.star a) Q Q := by
  intro w hw
  refine Derives.star_induction (P := fun w => ∀ q ∈ Q, ∃ q' ∈ Q, moves move q w = some q') ?_ ?_ hw
  · exact fun q hq => ⟨q, hq, rfl⟩
  · intro u v hu _ ih q hq
    obtain ⟨q₁, hq₁, hm₁⟩ := ha _ hu q hq
    obtain ⟨q', hq', hm'⟩ := ih q₁ hq₁
    exact ⟨q', hq', by rw [moves_append, hm₁, Option.bind_some, hm']⟩

theorem Leads.upTo_zero : Leads G move (.upTo 0 a) Q Q := by
  intro w hw q hq
  cases hw
  exact ⟨q, hq, rfl⟩

theorem Leads.upTo_succ {n : Nat} (ha : Leads G move a Q A)
    (hs : Leads G move (.upTo n a) A B) (hQ : Q ⊆ B) : Leads G move (.upTo (n + 1) a) Q B := by
  intro w hw q hq
  cases hw with
  | none => exact ⟨q, hQ hq, rfl⟩
  | oneMore hu hv => exact ha.seq hs _ (.seq hu hv) q hq

theorem Leads.rule {r : R} (h : Leads G move (G r) Q A) : Leads G move (.rule r) Q A := by
  intro w hw q hq
  exact h w hw.of_rule q hq

variable (G) (image : Nat → S → Option (List S)) [DecidableEq S]

/-- The states behind a set of bytes, for a set of states. -/
def images (m : Nat) : List S → Option (List S)
  | [] => some []
  | q :: Q => (image m q).bind fun A => (images m Q).map fun B => A ∪ B

/-- The states behind an expression, if every text of it leads to one; `n` bounds the calls. -/
def sweep : Nat → Expr R → List S → Option (List S)
  | 0, _, _ => none
  | _ + 1, .eps, Q => some Q
  | _ + 1, .bytes m, Q => images image m Q
  | n + 1, .seq a b, Q => (sweep n a Q).bind fun A => sweep n b A
  | n + 1, .alt a b, Q => (sweep n a Q).bind fun A => (sweep n b Q).map fun B => A ∪ B
  | n + 1, .star a, Q =>
      (sweep n a Q).bind fun A =>
        if A.all (fun q => decide (q ∈ Q)) then some Q else sweep n (.star a) (Q ∪ A)
  | _ + 1, .upTo 0 _, Q => some Q
  | n + 1, .upTo (i + 1) a, Q =>
      (sweep n a Q).bind fun A => (sweep n (.upTo i a) A).map fun B => Q ∪ B
  | n + 1, .rule r, Q => sweep n (G r) Q

variable {G image}
variable (himage : ∀ m q A, image m q = some A → ∀ c, has m c = true →
  ∃ q' ∈ A, move q c = some q')

include himage in
theorem leads_of_images {m : Nat} (h : images image m Q = some A) :
    Leads G move (.bytes m) Q A := by
  intro w hw q hq
  obtain ⟨c, hc, rfl⟩ := hw.of_bytes
  induction Q generalizing A with
  | nil => exact absurd hq List.not_mem_nil
  | cons q₁ Q ih =>
      obtain ⟨A₁, hA₁, h⟩ := Option.bind_eq_some_iff.mp h
      obtain ⟨A₂, hA₂, rfl⟩ := Option.map_eq_some_iff.mp h
      rcases List.mem_cons.mp hq with rfl | hq
      · obtain ⟨q', hq', hm⟩ := himage m _ A₁ hA₁ c hc
        exact ⟨q', List.mem_union_left hq' _, by rw [moves_cons, hm]; rfl⟩
      · obtain ⟨q', hq', hm⟩ := ih hA₂ hq
        exact ⟨q', List.mem_union_right _ hq', hm⟩

include himage in
/-- The states that a sweep finds. -/
theorem sweep_moves : ∀ (n : Nat) (e : Expr R) (Q A : List S),
    sweep G image n e Q = some A → Leads G move e Q A := by
  intro n
  induction n with
  | zero => exact fun e Q A h => absurd h (by simp [sweep])
  | succ n ih =>
      intro e Q A h
      cases e with
      | eps =>
          obtain rfl := Option.some.inj h
          exact .eps
      | bytes m => exact leads_of_images himage h
      | seq a b =>
          obtain ⟨A₁, hA₁, h⟩ := Option.bind_eq_some_iff.mp h
          exact (ih _ _ _ hA₁).seq (ih _ _ _ h)
      | alt a b =>
          obtain ⟨A₁, hA₁, h⟩ := Option.bind_eq_some_iff.mp h
          obtain ⟨A₂, hA₂, rfl⟩ := Option.map_eq_some_iff.mp h
          exact .alt ((ih _ _ _ hA₁).mono (List.Subset.refl _) fun q hq =>
              List.mem_union_left hq _)
            ((ih _ _ _ hA₂).mono (List.Subset.refl _) fun q hq => List.mem_union_right _ hq)
      | star a =>
          obtain ⟨A₁, hA₁, h⟩ := Option.bind_eq_some_iff.mp h
          split at h
          · rename_i hclosed
            obtain rfl := Option.some.inj h
            rw [List.all_eq_true] at hclosed
            exact ((ih _ _ _ hA₁).mono (List.Subset.refl _) fun q hq =>
              of_decide_eq_true (hclosed q hq)).star
          · exact (ih _ _ _ h).mono (fun q hq => List.mem_union_left hq _) (List.Subset.refl _)
      | upTo i a =>
          cases i with
          | zero =>
              obtain rfl := Option.some.inj h
              exact .upTo_zero
          | succ i =>
              obtain ⟨A₁, hA₁, h⟩ := Option.bind_eq_some_iff.mp h
              obtain ⟨A₂, hA₂, rfl⟩ := Option.map_eq_some_iff.mp h
              exact .upTo_succ (ih _ _ _ hA₁) ((ih _ _ _ hA₂).mono (List.Subset.refl _)
                fun q hq => List.mem_union_right _ hq) fun q hq => List.mem_union_left hq _
      | rule r => exact (ih _ _ _ h).rule

include himage in
/-- What holds of all states that a sweep finds. -/
theorem leads_of_sweep {n : Nat} {P : S → Bool}
    (h : ((sweep G image n a Q).any fun A => A.all P) = true) :
    ∃ A, (∀ q ∈ A, P q = true) ∧ Leads G move a Q A := by
  cases hA : sweep G image n a Q with
  | none =>
      rw [hA] at h
      cases h
  | some A =>
      rw [hA] at h
      exact ⟨A, List.all_eq_true.mp h, sweep_moves himage n a Q A hA⟩

end Sweep

end CoLib.Lib.Grammar
