/-
# `CoLib.Uri.Language` — the language of the machine

`uri.cc` is generated from `uri.rl`.  That what the machine accepts is derived by the rules is
shown with a list of expressions for each state, as for RFC 3986; the lists differ in two ways.
The groups in front of a double colon are counted (`counted`), and a number from 200 to 249
begins with the byte 2, with states of its own behind it (`behindTwo`).

**Proved here.**  A text that leads to a final state is derived by the main rule of `uri.rl`
(`derives_of_accepts`).
-/
import CoLib.Uri.Accepted

namespace CoLib.Uri

open Lib.Grammar

/-! ## What may come in a state -/

/-- As many groups as `uri.rl` has, where RFC 3986 has up to as many. -/
def counted : Expr Rule → List (Expr Rule)
  | .upTo n e =>
      if e = h16Colon then (List.replicate n [.rule .h16, .bytes colon]).flatten else [.upTo n e]
  | e => [e]

/-- Within a `dec_octet`, or behind the byte 2 of one, with `n` more of them and `k` to come. -/
def octetsThen (k : List (Expr Rule)) (n : Nat) (is : List Nat) : Lists :=
  is.filterMap fun i => ((octetRests ++ [[.bytes (interval 48 52), .bytes digit]])[i]?).map
    (· ++ (List.replicate n [.bytes dot, .rule .decOctet]).flatten ++ k)

/-- Where the address is a host, or could be one. -/
def named : Nat → List Nat → Lists := octetsThen afterHost

/-- Where the address is the end of an `IP_literal`. -/
def bracketed : Nat → List Nat → Lists := octetsThen closing

/-- The states of an address that could be a `reg_name` as well, from the first one on. -/
def sharedStates (first : Nat) : List (Nat × Lists) :=
  (List.range' first 18).zip
    [named 3 [0], named 2 [5], named 2 [0], named 1 [5], named 1 [0], named 0 [5],
      named 1 [0, 1, 2], named 1 [0, 1], named 1 [0, 1, 4], named 1 [0, 3], named 2 [0, 1, 2],
      named 2 [0, 1], named 2 [0, 1, 4], named 2 [0, 3], named 3 [0, 1, 2], named 3 [0, 1],
      named 3 [0, 1, 4], named 3 [0, 3]]

/-- The lists that begin within an address. -/
def behindTwo : List (Nat × Lists) :=
  [(9, named 3 [6]), (10, named 3 [1]), (11, named 3 [0]), (12, named 2 [5]), (13, named 2 [6]),
    (14, named 2 [1]), (15, named 2 [0]), (16, named 1 [5]), (17, named 1 [6]), (18, named 1 [1]),
    (19, named 1 [0]), (20, named 0 [5]), (21, named 0 [6]), (22, named 0 [1]),
    (23, named 1 [0, 1, 2]), (24, named 1 [0, 1]), (25, named 1 [0, 1, 4]), (26, named 1 [0, 3]),
    (27, named 2 [0, 1, 2]), (28, named 2 [0, 1]), (29, named 2 [0, 1, 4]), (30, named 2 [0, 3]),
    (69, bracketed 3 [6]), (70, bracketed 3 [1]), (71, bracketed 3 [0]), (73, bracketed 2 [6]),
    (74, bracketed 2 [1]), (77, bracketed 1 [6]), (78, bracketed 1 [1]), (81, bracketed 0 [6]),
    (82, bracketed 0 [1]), (463, named 0 [0, 1, 2]), (464, named 0 [0, 1]),
    (465, named 0 [0, 1, 4]), (466, named 0 [0, 3])] ++ sharedStates 471 ++ sharedStates 490

/-- The state that has the same lists. -/
def original (cs : Nat) : Option Nat :=
  (copies.find? fun e => decide (e.1 ≤ cs) && decide (cs ≤ e.2.1)).map fun e => cs - e.2.2

def listsOf (cs : Nat) : Lists :=
  ((original cs).bind fun cs => behindTwo.lookup cs).getD [] ++
    (restsOf cs).map fun k => k.flatMap counted

/-! ## The machine keeps to the lists -/

/-- The lists of the next state are left behind each byte of the range. -/
def keeps (cs : Nat) (r : Http.Range) : Bool :=
  match transition r.target with
  | none => true
  | some (_, cs') => !(listsOf cs').isEmpty && (listsOf cs').all fun k =>
      within (interval r.lo r.hi) (leaving k ((listsOf cs).flatMap (heads uriRl 40)))

theorem rows_keep : ∀ block ∈ rows, (block.2.all fun row => row.2.all (keeps row.1)) = true := by
  intro block hblock
  simp only [rows, List.mem_cons, List.not_mem_nil, or_false] at hblock
  rcases hblock with rfl | rfl | rfl | rfl | rfl | rfl | rfl | rfl | rfl | rfl | rfl | rfl | rfl |
    rfl <;> decide +kernel

/-- A state from which the text may end has a list that may end. -/
theorem finals_may_end : ((List.range 110).all fun i =>
    (listsOf (uriParserFirstFinal + i)).any (ends uriRl 40)) = true := by
  decide +kernel

theorem keeps_of_state {cs cs' : Nat} {c : UInt8} (h : state cs c = some cs') :
    listsOf cs' ≠ [] ∧ ∀ k ∈ listsOf cs',
      has (leaving k ((listsOf cs).flatMap (heads uriRl 40))) c = true := by
  obtain ⟨⟨as, cs₁⟩, hnext, rfl⟩ := Option.map_eq_some_iff.mp h
  obtain ⟨block, hblock, ranges, hmem, r, hr, hcovers, htarget⟩ := exists_range hnext
  obtain ⟨-, hlo, hhi⟩ := covers_iff.mp hcovers
  have hrow := List.all_eq_true.mp (rows_keep block hblock) _ hmem
  have hkeeps := List.all_eq_true.mp hrow r hr
  rw [keeps, htarget] at hkeeps
  simp only [Bool.and_eq_true, Bool.not_eq_true', List.isEmpty_eq_false_iff,
    List.all_eq_true] at hkeeps
  refine ⟨hkeeps.1, ?_⟩
  intro k hk
  exact has_of_within (hkeeps.2 k hk) (has_interval.mpr ⟨hlo, hhi⟩)

/-- The states with lists are those of the tables. -/
theorem le_of_listsOf {cs : Nat} (h : listsOf cs ≠ []) : cs ≤ 560 := by
  cases hfind : copies.find? fun e => decide (e.1 ≤ cs) && decide (cs ≤ e.2.1) with
  | none =>
      rw [listsOf, original, restsOf, hfind] at h
      exact absurd rfl h
  | some e =>
      have hlast : copies.all (fun e => decide (e.2.1 ≤ 560)) = true := by decide
      have hmem := List.all_eq_true.mp hlast e (List.mem_of_find?_eq_some hfind)
      have hfound := List.find?_some (p := fun e : Nat × Nat × Nat =>
        decide (e.1 ≤ cs) && decide (cs ≤ e.2.1)) hfind
      exact (of_decide_eq_true (Bool.and_eq_true_iff.mp hfound).2).trans (of_decide_eq_true hmem)

theorem may_end_of_final {cs : Nat} (hcs : listsOf cs ≠ []) (hfinal : uriParserFirstFinal ≤ cs) :
    ∃ k ∈ listsOf cs, ends uriRl 40 k = true := by
  have hle := le_of_listsOf hcs
  have hlt : cs - uriParserFirstFinal < 110 := by
    show cs - 451 < 110
    omega
  have hall := List.all_eq_true.mp finals_may_end _ (List.mem_range.mpr hlt)
  rw [Nat.add_sub_cancel' hfinal] at hall
  exact List.any_eq_true.mp hall

/-! ## The language -/

/-- The text leads from the start to a final state. -/
def Accepts (text : List UInt8) : Prop :=
  ∃ cs, moves state uriParserStart text = some cs ∧ uriParserFirstFinal ≤ cs

theorem derives_of_accepts {text : List UInt8} (h : Accepts text) :
    Derives uriRl (.rule .uriReference) text := by
  obtain ⟨cs, hmoves, hfinal⟩ := h
  have hstart : listsOf uriParserStart = [[.rule .uriReference]] := by decide
  obtain ⟨k, hk, hderives⟩ := derives_of_run
    (fun _ _ _ _ (_ : True) => keeps_of_state) (fun _ => may_end_of_final) text uriParserStart cs
    (by rw [hstart]; exact List.cons_ne_nil _ _) (fun _ _ => trivial) hmoves hfinal
  rw [hstart, List.mem_singleton] at hk
  subst hk
  exact derivesAll_singleton.mp hderives

end CoLib.Uri
