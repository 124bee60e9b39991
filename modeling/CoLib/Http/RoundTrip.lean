/-
# `CoLib.Http.RoundTrip` — what `dump` writes, the parser reads

`dump` and the grammar were written independently.  The machine is followed
through the parts of the text: each part is scanned from one state to the next,
and the callbacks on the way set one field of the request (`Passes`).  What the
table does on the characters of a part is looked up for all of them at once.

**Proved here.**  `dump_roundtrip_iff`: for every request that the grammar can
express, `execute` on the text of `toString` finishes without error, gives back
the request with its headers as `sent`, and leaves exactly the body, if and only
if the method is not `M-SEARCH`.  The grammar's `Method` has no `-`.
-/
import CoLib.Http.Dump
import CoLib.Http.Parser

namespace CoLib.Http

open Lib Lib.Scanner HttpRequestParser

/-! ## The table on many bytes -/

/-- In state `q`, every byte among `on` has the actions `acts` and goes to `q'`. -/
def goes (q : Nat) (acts : List Action) (q' : Nat) (on : Bool → UInt8 → Bool) : Bool :=
  [false, true].all fun u => (List.range 256).all fun n =>
    !on u n.toUInt8 || next u q n.toUInt8 == some (acts, q')

theorem next_of_goes {q q' : Nat} {acts : List Action} {on : Bool → UInt8 → Bool}
    (h : goes q acts q' on = true) {u : Bool} {c : UInt8} (hc : on u c = true) :
    next u q c = some (acts, q') := by
  have hu := List.all_eq_true.mp h u (by cases u <;> simp)
  have hn := List.all_eq_true.mp hu c.toNat (List.mem_range.mpr c.toNat_lt)
  have hback : c.toNat.toUInt8 = c := UInt8.ofNat_toNat
  rw [hback, hc] at hn
  simpa using hn

/-- The bytes of a path, or of a query or a fragment, apart from `%`. -/
def inUri (extra : List UInt8) (u : Bool) (c : UInt8) : Bool :=
  isPchar u c || extra.contains c

/-- A byte in one of the intervals. -/
def within (ivs : List (Nat × Nat)) (n : Nat) : Bool :=
  ivs.any fun iv => Nat.ble iv.1 n && Nat.ble n iv.2

/-- The range meets the interval. -/
def Range.meets (u : Bool) (iv : Nat × Nat) (r : Range) : Bool :=
  Nat.ble r.lo iv.2 && Nat.ble iv.1 r.hi && (!r.guarded || u)

/-- In every interval the first range that meets it holds all of it, and goes to `d`. -/
def goesOn (ivs : Bool → List (Nat × Nat)) (d : Nat × List Action × Nat) : Bool :=
  match rows.lookup d.1 with
  | some row => [false, true].all fun u => (ivs u).all fun iv =>
      (row.find? (Range.meets u iv)).any fun r =>
        Nat.ble r.lo iv.1 && Nat.ble iv.2 r.hi && r.target.transition == some d.2
  | none => false

/-- The range that holds an interval is the first to cover a byte of it. -/
theorem find_covers {row : List Range} {u : Bool} {iv : Nat × Nat} {r : Range} {c : UInt8}
    (h : row.find? (Range.meets u iv) = some r) (hlo : r.lo ≤ iv.1) (hhi : iv.2 ≤ r.hi)
    (hc : iv.1 ≤ c.toNat) (hc' : c.toNat ≤ iv.2) : row.find? (Range.covers u c) = some r := by
  obtain ⟨hr, l, l', rfl, hl⟩ := List.find?_eq_some_iff_append.mp h
  refine List.find?_eq_some_iff_append.mpr ⟨?_, l, l', rfl, fun x hx => ?_⟩
  · simp only [Range.meets, Bool.and_eq_true] at hr
    simp only [Range.covers, hr.2, Bool.and_true, Bool.and_eq_true, decide_eq_true_eq]
    omega
  · have hno := hl x hx
    simp only [Range.meets, Range.covers, Bool.not_eq_true', Bool.and_eq_false_iff] at hno ⊢
    refine hno.imp_left fun hno => hno.imp (fun hno => ?_) fun hno => ?_
    · have hlt : ¬ x.lo ≤ iv.2 := fun hle => by simp [Nat.ble_eq.mpr hle] at hno
      exact decide_eq_false (by omega)
    · have hlt : ¬ iv.1 ≤ x.hi := fun hle => by simp [Nat.ble_eq.mpr hle] at hno
      exact decide_eq_false (by omega)

theorem goes_of_intervals {q q' : Nat} {acts : List Action} {on : Bool → UInt8 → Bool}
    {ivs : Bool → List (Nat × Nat)}
    (hon : ∀ u c, on u c = true → within (ivs u) c.toNat = true)
    (h : goesOn ivs (q, acts, q') = true) : goes q acts q' on = true := by
  rw [goesOn] at h
  split at h
  · rename_i row hrow
    refine List.all_eq_true.mpr fun u hu => List.all_eq_true.mpr fun n _ => ?_
    cases hc : on u n.toUInt8 with
    | false => rfl
    | true =>
        obtain ⟨iv, hiv, hin⟩ := List.any_eq_true.mp (hon u _ hc)
        have hany := List.all_eq_true.mp (List.all_eq_true.mp h u hu) iv hiv
        cases hr : row.find? (Range.meets u iv) with
        | none =>
            rw [hr] at hany
            cases hany
        | some r =>
            rw [hr, Option.any_some] at hany
            simp only [Bool.and_eq_true, Nat.ble_eq, beq_iff_eq] at hin hany
            have hfind := find_covers hr hany.1.1 hany.1.2 hin.1 hin.2
            simp [next, hrow, hfind, hany.2]
  · cases h

/-- A class of bytes, from its 256 cases. -/
theorem within_of_all {on : Bool → UInt8 → Bool} {ivs : Bool → List (Nat × Nat)}
    (h : ([false, true].all fun u => (List.range 256).all fun n =>
      !on u n.toUInt8 || within (ivs u) n) = true) (u : Bool) (c : UInt8) (hc : on u c = true) :
    within (ivs u) c.toNat = true := by
  have hu := List.all_eq_true.mp h u (by cases u <;> simp)
  have hn := List.all_eq_true.mp hu c.toNat (List.mem_range.mpr c.toNat_lt)
  have hback : c.toNat.toUInt8 = c := UInt8.ofNat_toNat
  rw [hback, hc] at hn
  exact hn

def pcharIntervals (u : Bool) : List (Nat × Nat) :=
  [(33, 33), (36, 36), (38, 46), (48, 57), (58, 58), (59, 59), (61, 61), (64, 64), (65, 90),
    (95, 95), (97, 122), (126, 126), (128, 255)]
    ++ if u then [(94, 94), (123, 123), (125, 125)] else []

def uriIntervals (extra : List Nat) (u : Bool) : List (Nat × Nat) :=
  extra.map (fun n => (n, n)) ++ pcharIntervals u

def xdigitIntervals (_u : Bool) : List (Nat × Nat) :=
  [(48, 57), (65, 70), (97, 102)]

def tokenIntervals (_u : Bool) : List (Nat × Nat) :=
  [(33, 33), (35, 39), (42, 43), (45, 46), (48, 57), (65, 90), (94, 122), (124, 124), (126, 126)]

def contentIntervals (_u : Bool) : List (Nat × Nat) :=
  [(1, 8), (11, 12), (14, 31), (33, 126), (128, 255)]

theorem within_pchar : ∀ u c, isPchar u c = true → within (pcharIntervals u) c.toNat = true :=
  within_of_all (by decide +kernel)

theorem within_uri (extra : List UInt8) (u : Bool) (c : UInt8) (h : inUri extra u c = true) :
    within (uriIntervals (extra.map UInt8.toNat) u) c.toNat = true := by
  rw [within, uriIntervals, List.any_append, Bool.or_eq_true_iff]
  rcases Bool.or_eq_true_iff.mp h with h | h
  · exact .inr (within_pchar u c h)
  · refine .inl (List.any_eq_true.mpr ⟨(c.toNat, c.toNat), ?_, by simp⟩)
    simpa using ⟨c, by simpa using h, rfl⟩

theorem within_xdigit : ∀ u c, isXdigit c = true → within (xdigitIntervals u) c.toNat = true :=
  @within_of_all (fun _ => isXdigit) xdigitIntervals (by decide +kernel)

theorem within_token : ∀ u c, isToken c = true → within (tokenIntervals u) c.toNat = true :=
  @within_of_all (fun _ => isToken) tokenIntervals (by decide +kernel)

theorem within_content : ∀ u c, (isContent c && !isBlank c) = true →
    within (contentIntervals u) c.toNat = true :=
  @within_of_all (fun _ c => isContent c && !isBlank c) contentIntervals (by decide +kernel)

theorem within_blank (u : Bool) (c : UInt8) (h : isBlank c = true) :
    within ((fun _ => [(9, 9), (32, 32)]) u) c.toNat = true := by
  rw [isBlank, Bool.or_eq_true_iff, beq_iff_eq, beq_iff_eq] at h
  rcases h with rfl | rfl <;> rfl

theorem within_percent (u : Bool) (c : UInt8) (h : (c == 37) = true) :
    within ((fun _ => [(37, 37)]) u) c.toNat = true := by
  obtain rfl := eq_of_beq h
  rfl

/-- What the table does with the bytes of a URI. -/
theorem goesOn_uri : goesOn (uriIntervals [47]) (26, [], 26) = true ∧
    goesOn (uriIntervals []) (33, [], 26) = true ∧
    [(30, [], 30), (29, [.startQuery], 30), (21, [], 21), (20, [.mark], 21)].all
      (goesOn (uriIntervals [47, 63])) = true ∧
    [(26, [], 27), (33, [], 27), (30, [], 31), (29, [.startQuery], 31), (21, [], 22),
      (20, [.mark], 22)].all (goesOn fun _ => [(37, 37)]) = true ∧
    [(27, [], 28), (28, [], 26), (31, [], 32), (32, [], 30), (22, [], 23), (23, [], 21)].all
      (goesOn xdigitIntervals) = true := by
  decide

/-- And with those of a header. -/
theorem goesOn_header : [(13, [.startField], 14), (14, [], 14)].all (goesOn tokenIntervals) = true ∧
    [(15, [.startValue], 16), (16, [], 16)].all (goesOn contentIntervals) = true ∧
    [(15, [.startValue], 15), (16, [], 16)].all (goesOn fun _ => [(9, 9), (32, 32)]) = true := by
  decide

theorem goes_extra {q q' : Nat} {acts : List Action}
    (h : (q, acts, q') ∈ [(30, [], 30), (29, [.startQuery], 30), (21, [], 21), (20, [.mark], 21)]) :
    goes q acts q' (inUri [47, 63]) = true :=
  goes_of_intervals (within_uri [47, 63]) (List.all_eq_true.mp goesOn_uri.2.2.1 _ h)

theorem goes_percent {q q' : Nat} {acts : List Action}
    (h : (q, acts, q') ∈ [(26, [], 27), (33, [], 27), (30, [], 31), (29, [.startQuery], 31),
      (21, [], 22), (20, [.mark], 22)]) : goes q acts q' (fun _ c => c == 37) = true :=
  goes_of_intervals within_percent (List.all_eq_true.mp goesOn_uri.2.2.2.1 _ h)

theorem goes_xdigit {q q' : Nat} {acts : List Action}
    (h : (q, acts, q') ∈ [(27, [], 28), (28, [], 26), (31, [], 32), (32, [], 30), (22, [], 23),
      (23, [], 21)]) : goes q acts q' (fun _ => isXdigit) = true :=
  goes_of_intervals within_xdigit (List.all_eq_true.mp goesOn_uri.2.2.2.2 _ h)

theorem goes_path : goes 26 [] 26 (inUri [47]) = true ∧ goes 26 [] 27 (fun _ c => c == 37) = true ∧
    goes 27 [] 28 (fun _ => isXdigit) = true ∧ goes 28 [] 26 (fun _ => isXdigit) = true :=
  ⟨goes_of_intervals (within_uri [47]) goesOn_uri.1, goes_percent (by simp),
    goes_xdigit (by simp), goes_xdigit (by simp)⟩

theorem goes_path_first : goes 33 [] 26 (inUri []) = true ∧
    goes 33 [] 27 (fun _ c => c == 37) = true :=
  ⟨goes_of_intervals (within_uri []) goesOn_uri.2.1, goes_percent (by simp)⟩

theorem goes_query : goes 30 [] 30 (inUri [47, 63]) = true ∧
    goes 30 [] 31 (fun _ c => c == 37) = true ∧
    goes 31 [] 32 (fun _ => isXdigit) = true ∧ goes 32 [] 30 (fun _ => isXdigit) = true :=
  ⟨goes_extra (by simp), goes_percent (by simp), goes_xdigit (by simp), goes_xdigit (by simp)⟩

theorem goes_query_first : goes 29 [.startQuery] 30 (inUri [47, 63]) = true ∧
    goes 29 [.startQuery] 31 (fun _ c => c == 37) = true :=
  ⟨goes_extra (by simp), goes_percent (by simp)⟩

theorem goes_fragment : goes 21 [] 21 (inUri [47, 63]) = true ∧
    goes 21 [] 22 (fun _ c => c == 37) = true ∧
    goes 22 [] 23 (fun _ => isXdigit) = true ∧ goes 23 [] 21 (fun _ => isXdigit) = true :=
  ⟨goes_extra (by simp), goes_percent (by simp), goes_xdigit (by simp), goes_xdigit (by simp)⟩

theorem goes_fragment_first : goes 20 [.mark] 21 (inUri [47, 63]) = true ∧
    goes 20 [.mark] 22 (fun _ c => c == 37) = true :=
  ⟨goes_extra (by simp), goes_percent (by simp)⟩

theorem goes_name : goes 13 [.startField] 14 (fun _ => isToken) = true ∧
    goes 14 [] 14 (fun _ => isToken) = true :=
  ⟨goes_of_intervals within_token (List.all_eq_true.mp goesOn_header.1 _ (by simp)),
    goes_of_intervals within_token (List.all_eq_true.mp goesOn_header.1 _ (by simp))⟩

/-- A content is a blank or is not. -/
theorem goes_content {q q' : Nat} {acts : List Action}
    (h : goes q acts q' (fun _ c => isContent c && !isBlank c) = true)
    (h' : goes q acts q' (fun _ => isBlank) = true) :
    goes q acts q' (fun _ => isContent) = true := by
  refine List.all_eq_true.mpr fun u hu => List.all_eq_true.mpr fun n hn => ?_
  have hc := List.all_eq_true.mp (List.all_eq_true.mp h u hu) n hn
  have hb := List.all_eq_true.mp (List.all_eq_true.mp h' u hu) n hn
  cases hblank : isBlank n.toUInt8 with
  | true => simp_all
  | false => simp_all

theorem goes_value : goes 15 [.startValue] 15 (fun _ => isBlank) = true ∧
    goes 15 [.startValue] 16 (fun _ c => isContent c && !isBlank c) = true ∧
    goes 16 [] 16 (fun _ => isContent) = true := by
  obtain ⟨-, hcontent, hblank⟩ := goesOn_header
  have hcontent := List.all_eq_true.mp hcontent
  have hblank := List.all_eq_true.mp hblank
  refine ⟨goes_of_intervals within_blank (hblank _ (by simp)),
    goes_of_intervals within_content (hcontent _ (by simp)),
    goes_content (goes_of_intervals within_content (hcontent _ (by simp)))
      (goes_of_intervals within_blank (hblank _ (by simp)))⟩

/-- The table at the bytes between the parts. -/
theorem next_between (u : Bool) : next u 3 47 = some ([.mark], 33) ∧
    next u 14 58 = some ([.writeField], 15) ∧
    next u 15 13 = some ([.startValue, .writeValue], 17) ∧
    next u 16 13 = some ([.writeValue], 17) ∧ next u 17 10 = some ([], 13) ∧
    next u 13 13 = some ([.startField], 18) ∧ next u 18 10 = some ([.done], 348) := by
  cases u <;> decide

/-! ## The parts of a text -/

section Parts

variable {M : Type} {u : Bool} {act : Nat → Action → M → Option M} {p : Nat} {m m' : M}
  {extra : List UInt8} {q₀ q q₁ q₂ : Nat} {acts : List Action} {xs : List UInt8}

theorem machine_final (u : Bool) {q : Nat} (h : q < 348) : (machine u).final q = false :=
  decide_eq_false (Nat.not_le.mpr h)

/-- A loop over characters of a URI: state `q`, with `q₁` and `q₂` in a `%xx`. -/
structure UriLoop (extra : List UInt8) (q q₁ q₂ : Nat) : Prop where
  table : goes q [] q (inUri extra) = true ∧ goes q [] q₁ (fun _ c => c == 37) = true ∧
    goes q₁ [] q₂ (fun _ => isXdigit) = true ∧ goes q₂ [] q (fun _ => isXdigit) = true
  below : q < 348 ∧ q₁ < 348 ∧ q₂ < 348

theorem pathLoop : UriLoop [47] 26 27 28 := ⟨goes_path, by decide⟩
theorem queryLoop : UriLoop [47, 63] 30 31 32 := ⟨goes_query, by decide⟩
theorem fragmentLoop : UriLoop [47, 63] 21 22 23 := ⟨goes_fragment, by decide⟩

theorem inUri_of {c : UInt8} (h : isPchar u c = true ∨ c ∈ extra) : inUri extra u c = true := by
  simpa [inUri] using h

/-- The two digits of a `%xx`, then the rest. -/
theorem UriLoop.scans_digits (hl : UriLoop extra q q₁ q₂) {a b : UInt8} (ha : isXdigit a = true)
    (hb : isXdigit b = true) (h : Scans (machine u) act (p + 2) q m xs q m) :
    Scans (machine u) act p q₁ m (a :: b :: xs) q m :=
  .cons (next_of_goes hl.table.2.2.1 ha) (machine_final u hl.below.2.2) rfl
    (.cons (next_of_goes hl.table.2.2.2 hb) (machine_final u hl.below.1) rfl h)

theorem UriLoop.scans (hl : UriLoop extra q q₁ q₂) (h : UriText u extra xs) :
    Scans (machine u) act p q m xs q m := by
  induction h generalizing p with
  | nil => exact .nil
  | char hc _ ih =>
      exact .cons (next_of_goes hl.table.1 (inUri_of hc)) (machine_final u hl.below.1) rfl ih
  | pctEncoded ha hb _ ih =>
      exact .cons (next_of_goes hl.table.2.1 rfl) (machine_final u hl.below.2.1) rfl
        (hl.scans_digits ha hb ih)

/-- A text that is not empty, from the state before its first character. -/
theorem UriLoop.scans_first (hl : UriLoop extra q q₁ q₂) {first : List UInt8}
    (hfirst : goes q₀ acts q (inUri first) = true ∧ goes q₀ acts q₁ (fun _ c => c == 37) = true)
    (h : UriText u extra xs) (hne : xs ≠ [])
    (hhead : ∀ c ∈ extra, xs.head? = some c → c ∈ first) (hr : runActs act p acts m = some m') :
    Scans (machine u) act p q₀ m xs q m' := by
  cases h with
  | nil => exact absurd rfl hne
  | char hc h =>
      have hc := hc.imp_right fun hmem => hhead _ hmem rfl
      exact .cons (next_of_goes hfirst.1 (inUri_of hc)) (machine_final u hl.below.1) hr (hl.scans h)
  | pctEncoded ha hb h =>
      exact .cons (next_of_goes hfirst.2 rfl) (machine_final u hl.below.2.1) hr
        (hl.scans_digits ha hb (hl.scans h))

end Parts

/-! ## The parser on a part -/

/-- No error so far, and a request over HTTP. -/
def HttpRequestParser.Clean (P : HttpRequestParser) : Prop :=
  P.error = 0 ∧ P.xmlSent = false ∧ P.jsonSent = false

/-- After `pre`, the parser takes `xs` from state `q` to state `q'`, and `f` is what
becomes of the request, whatever follows. -/
def Passes (u : Bool) (pre xs : List UInt8) (q q' : Nat) (f : HttpRequest → HttpRequest) : Prop :=
  ∀ rest P, P.Clean → ∃ P', Scans (machine u) (Action.run (pre ++ xs ++ rest)) pre.length q P
    xs q' P' ∧ P'.Clean ∧ P'.data = f P.data

section Passes

variable {u : Bool} {pre xs ys : List UInt8} {q q₁ q' : Nat} {f g : HttpRequest → HttpRequest}

theorem Passes.trans (h : Passes u pre xs q q₁ f) (h' : Passes u (pre ++ xs) ys q₁ q' g) :
    Passes u pre (xs ++ ys) q q' (g ∘ f) :=
  Scanner.Passes.trans h h'

theorem Passes.congr (h : Passes u pre xs q q' f) (hxs : xs = ys) (hfg : ∀ d, f d = g d) :
    Passes u pre ys q q' g :=
  Scanner.Passes.congr h hxs hfg

theorem token_eq (pre xs rest : List UInt8) :
    token (pre ++ xs ++ rest) pre.length (pre.length + xs.length) = some xs := by
  rw [token, if_pos (Nat.le_add_right ..), List.append_assoc, List.drop_left,
    Nat.add_sub_cancel_left, List.take_left]

/-- The bytes of one part, from inside it. -/
theorem token_part (pre a xs b rest : List UInt8) :
    token (pre ++ (a ++ xs ++ b) ++ rest) (pre.length + a.length)
      (pre.length + a.length + xs.length) = some xs := by
  have hbuf : pre ++ (a ++ xs ++ b) ++ rest = (pre ++ a) ++ xs ++ (b ++ rest) := by simp
  have h := token_eq (pre ++ a) xs (b ++ rest)
  rw [List.length_append] at h
  rw [hbuf, h]

/-- The name that a line begins with. -/
theorem name_part {pre name line rest : List UInt8} (h : name <+: line) :
    ((pre ++ line ++ rest).drop pre.length).take name.length = name := by
  obtain ⟨after, rfl⟩ := h
  rw [List.append_assoc, List.drop_left, List.append_assoc, List.take_left]

/-! ### The URI -/

/-- What ends the path: a blank, `?` or `#`. -/
theorem path_end {c : UInt8} {acts : List Action} (hq : q = 33 ∨ q = 26)
    (hc : (c, acts, q') ∈ [((32 : UInt8), [Action.requestPath, .requestUri], 4),
      (35, [.requestPath, .requestUri], 20), (63, [.requestPath], 29)]) :
    next u q c = some (acts, q') := by
  have h : ∀ u q e, (q = 33 ∨ q = 26) → e ∈ [((32 : UInt8), [Action.requestPath, .requestUri], 4),
      (35, [.requestPath, .requestUri], 20), (63, [.requestPath], 29)] →
        next u q e.1 = some e.2 := by
    rintro u q e (rfl | rfl) he <;> revert u e <;> decide
  exact h u q _ hq hc

/-- The path and the byte after it. -/
theorem passes_path {rest : List UInt8} (hsingle : rest.head? ≠ some 47)
    (h : UriText u [47] rest) (c : UInt8) (acts : List Action) (q' : Nat)
    (hc : (c, acts, q') ∈ [((32 : UInt8), [Action.requestPath, .requestUri], 4),
      (35, [.requestPath, .requestUri], 20), (63, [.requestPath], 29)]) :
    Passes u pre (47 :: rest ++ [c]) 3 q' fun d => { d with path := 47 :: rest } := by
  intro tail P hP
  have hbelow : q' < 348 := by
    simp only [List.mem_cons, Prod.mk.injEq, List.not_mem_nil, or_false] at hc
    omega
  obtain ⟨q, hq, hscan⟩ : ∃ q, (q = 33 ∨ q = 26) ∧ Scans (machine u)
      (Action.run (pre ++ (47 :: rest ++ [c]) ++ tail)) (pre.length + 1) 33
        { P with mark := pre.length } rest q { P with mark := pre.length } := by
    by_cases hne : rest = []
    · subst hne
      exact ⟨33, .inl rfl, .nil⟩
    · exact ⟨26, .inr rfl, pathLoop.scans_first goes_path_first h hne
        (fun c hmem hhead => by
          obtain rfl : c = 47 := by simpa using hmem
          exact absurd hhead hsingle) rfl⟩
  have htok := token_part pre [] (47 :: rest) [c] tail
  have hend : runActs (Action.run (pre ++ (47 :: rest ++ [c]) ++ tail))
      (pre.length + 1 + rest.length) acts { P with mark := pre.length }
        = some { P with mark := pre.length, data := { P.data with path := 47 :: rest } } := by
    have hrun : Action.run (pre ++ (47 :: rest ++ [c]) ++ tail) (pre.length + 1 + rest.length)
        .requestPath { P with mark := pre.length }
          = some { P with mark := pre.length, data := { P.data with path := 47 :: rest } } := by
      have hpos : pre.length + 1 + rest.length = pre.length + 0 + (47 :: rest).length := by
        rw [List.length_cons]
        omega
      simp only [Action.run, onRequestPath]
      rw [hpos]
      have htok : token (pre ++ (47 :: rest ++ [c]) ++ tail) pre.length
          (pre.length + 0 + (47 :: rest).length) = some (47 :: rest) := htok
      rw [htok]
      rfl
    simp only [List.mem_cons, Prod.mk.injEq, List.not_mem_nil, or_false] at hc
    rcases hc with ⟨-, rfl, -⟩ | ⟨-, rfl, -⟩ | ⟨-, rfl, -⟩ <;>
      rw [runActs, hrun] <;> rfl
  exact ⟨_, .cons (next_between u).1 (machine_final u (by decide)) rfl
    (hscan.append (.cons (path_end hq hc) (machine_final u hbelow) hend .nil)), hP, rfl⟩

/-- A text that is not empty and the byte after it: the first byte's actions, and
those of the byte after it, on a buffer that has the text between. -/
theorem passes_text {extra : List UInt8} {q₀ q₁ q₂ : Nat} {acts : List Action}
    (acts' : List Action) (hl : UriLoop extra q q₁ q₂)
    (hfirst : goes q₀ acts q (inUri extra) = true ∧ goes q₀ acts q₁ (fun _ c => c == 37) = true)
    (h : UriText u extra xs) (hne : xs ≠ []) {c : UInt8} (hend : next u q c = some (acts', q'))
    (hq' : q' < 348)
    (hrun : ∀ buffer P, P.Clean → token buffer pre.length (pre.length + xs.length) = some xs →
      ∃ P₁ P₂, runActs (Action.run buffer) pre.length acts P = some P₁ ∧
        runActs (Action.run buffer) (pre.length + xs.length) acts' P₁ = some P₂ ∧
        P₂.Clean ∧ P₂.data = f P.data) :
    Passes u pre (xs ++ [c]) q₀ q' f := by
  intro rest P hP
  have htok := token_part pre [] xs [c] rest
  obtain ⟨P₁, P₂, h₁, h₂, hP₂, hd⟩ := hrun (pre ++ (xs ++ [c]) ++ rest) P hP htok
  have hscan : Scans (machine u) (Action.run (pre ++ (xs ++ [c]) ++ rest)) pre.length q₀ P
      xs q P₁ :=
    hl.scans_first hfirst h hne (fun _ hmem _ => hmem) h₁
  exact ⟨P₂, hscan.append (.cons hend (machine_final u hq') h₂ .nil), hP₂, hd⟩

/-- The query and the byte after it. -/
theorem passes_query (h : UriText u [47, 63] xs) (hne : xs ≠ []) (c : UInt8) (q' : Nat)
    (hc : (c = 32 ∧ q' = 4) ∨ (c = 35 ∧ q' = 20)) :
    Passes u pre (xs ++ [c]) 29 q' fun d => { d with query := xs } := by
  refine passes_text [.queryString, .requestUri] queryLoop goes_query_first h hne ?_
    (by omega) ?_
  · rcases hc with ⟨rfl, rfl⟩ | ⟨rfl, rfl⟩ <;> cases u <;> decide
  · intro buffer P hP htok
    refine ⟨{ P with queryStart := some pre.length },
      { P with queryStart := some pre.length, data := { P.data with query := xs } },
      rfl, ?_, hP, rfl⟩
    simp only [runActs, Action.run, onRequestQuery, Option.bind_some, htok, Option.map_some]

/-- The fragment and the blank after it. -/
theorem passes_fragment (h : UriText u [47, 63] xs) (hne : xs ≠ []) :
    Passes u pre (xs ++ [32]) 20 4 fun d => { d with fragment := xs } := by
  refine passes_text [.fragment] fragmentLoop goes_fragment_first h hne ?_ (by omega) ?_
  · cases u <;> decide
  · intro buffer P hP htok
    refine ⟨{ P with mark := pre.length },
      { P with mark := pre.length, data := { P.data with fragment := xs } }, rfl, ?_, hP, rfl⟩
    simp only [runActs, Action.run, onRequestFragment, Option.bind_some, htok, Option.map_some]

/-! ### The method and the version -/

/-- Actions at fixed places of a fixed text. -/
theorem passes_fixed {q : Nat} (trace : List (Nat × Action))
    (hwalk : walk (machine u) 0 q xs = ⟨trace, xs.length, .more q'⟩)
    (hrun : ∀ rest P, P.Clean → ∃ P', fold (Action.run (pre ++ xs ++ rest))
      (shift pre.length trace) P = some P' ∧ P'.Clean ∧ P'.data = f P.data) :
    Passes u pre xs q q' f :=
  Scanner.Passes.fixed trace hwalk hrun

/-- The machine on the names of the methods, and what `CharsToHttpMethod` makes of
them. -/
theorem walk_method : ∀ e ∈ httpMethodMap, e.1 ≠ .msearch → ∀ u ∈ [false, true],
    walk (machine u) 0 1 (chars e.2 ++ [32]) =
        ⟨[(0, .mark), ((chars e.2).length, .requestMethod)], (chars e.2 ++ [32]).length,
          .more 3⟩ ∧
      charsToHttpMethod (chars e.2 ++ [32]) = e.1 := by
  decide +kernel

theorem lookup_method {m : HttpMethod} (h : m ≠ .invalidMethod) :
    ∃ name, httpMethodMap.lookup m = some name ∧ (m, name) ∈ httpMethodMap := by
  obtain ⟨name, hname⟩ : ∃ name, httpMethodMap.lookup m = some name := by
    refine Option.isSome_iff_exists.mp ?_
    cases m <;> first | rfl | exact absurd rfl h
  obtain ⟨l, l', hsplit, -⟩ := List.lookup_eq_some_iff.mp hname
  exact ⟨name, hname, hsplit ▸ List.mem_append_right _ List.mem_cons_self⟩

/-- The method and the blank after it, at the beginning of the text. -/
theorem passes_method {m : HttpMethod} (hm : m ≠ .invalidMethod) (hs : m ≠ .msearch) :
    Passes u [] (httpMethodToString m ++ [32]) 1 3 fun d => { d with method := m } := by
  obtain ⟨name, hname, hmem⟩ := lookup_method hm
  obtain ⟨hwalk, hchars⟩ := walk_method (m, name) hmem hs u (by cases u <;> simp)
  dsimp only at hwalk hchars
  rw [httpMethodToString, hname]
  refine passes_fixed _ hwalk fun rest P hP => ?_
  have hread : charsToHttpMethod ((chars name ++ [32]) ++ rest) = m := by
    rw [← hchars]
    refine charsToHttpMethod_blank (k := (chars name).length) ?_ ?_
    · rw [List.take_append_of_le_length (by simp)]
    · simp
  refine ⟨{ P with mark := 0, data := { P.data with method := m } }, ?_, hP, rfl⟩
  simp only [shift, List.map_cons, List.map_nil, List.length_nil, Nat.add_zero, List.nil_append,
    fold, Action.run, Option.bind_some, onRequestMethod, List.drop_zero, hread]

/-- The eight bytes of a version. -/
theorem token_version (pre : List UInt8) (d : UInt8) (after rest : List UInt8) :
    token (pre ++ (chars "HTTP/1." ++ [d] ++ after) ++ rest) pre.length (8 + pre.length)
      = some (chars "HTTP/1." ++ [d]) := by
  have htok := token_part pre [] (chars "HTTP/1." ++ [d]) after rest
  have hlen : pre.length + ([] : List UInt8).length + (chars "HTTP/1." ++ [d]).length
      = 8 + pre.length := by
    have : (chars "HTTP/1." ++ [d]).length = 8 := by rw [List.length_append]; rfl
    rw [this, List.length_nil]
    omega
  rw [hlen, List.nil_append] at htok
  exact htok

/-- `HTTP/1.0` or `HTTP/1.1`, and the line end. -/
theorem walk_version : ∀ d ∈ [(48 : UInt8), 49], ∀ u ∈ [false, true],
    walk (machine u) 0 4 (chars "HTTP/1." ++ [d] ++ crlf) =
      ⟨[(0, .mark), (8, .httpVersion)], (chars "HTTP/1." ++ [d] ++ crlf).length, .more 13⟩ := by
  decide +kernel

theorem passes_version {d v : UInt8} (hv : (d = 48 ∧ v = 0x10) ∨ (d = 49 ∧ v = 0x11)) :
    Passes u pre (chars "HTTP/1." ++ [d] ++ crlf) 4 13 fun r => { r with version := v } := by
  have hwalk := walk_version d (by rcases hv with ⟨rfl, -⟩ | ⟨rfl, -⟩ <;> simp) u
    (by cases u <;> simp)
  refine passes_fixed _ hwalk fun rest P hP => ?_
  have htok := token_version pre d crlf rest
  have hset : ∀ P : HttpRequestParser, P.setVersionOf (chars "HTTP/1." ++ [d])
      = { P with data := { P.data with version := v } } := by
    intro P
    rcases hv with ⟨rfl, rfl⟩ | ⟨rfl, rfl⟩
    · rw [setVersionOf, if_neg (by decide), if_pos (by decide)]
    · rw [setVersionOf, if_pos (by decide)]
  refine ⟨{ P with mark := pre.length, data := { P.data with version := v } }, ?_, hP, rfl⟩
  simp only [shift, List.map_cons, List.map_nil, Nat.zero_add, fold, Action.run, Option.bind_some,
    onRequestVersion, htok, Option.map_some, hset]

/-! ### The headers -/

/-- Blanks before a value. -/
theorem scans_blanks (buffer : List UInt8) {p : Nat} {P : HttpRequestParser}
    (h : ∀ c ∈ xs, isBlank c = true) :
    ∃ mark, Scans (machine u) (Action.run buffer) p 15 P xs 15 { P with mark } := by
  induction xs generalizing p P with
  | nil => exact ⟨P.mark, .nil⟩
  | cons c xs ih =>
      obtain ⟨mark, hscan⟩ := ih (p := p + 1) (P := { P with mark := p })
        fun c hc => h c (List.mem_cons_of_mem _ hc)
      exact ⟨mark, .cons (next_of_goes goes_value.1 (h c List.mem_cons_self))
        (machine_final u (by decide)) rfl hscan⟩

/-- A value and the line end: the field is set with what stands between. -/
theorem scans_value {buffer : List UInt8} {p : Nat} {P : HttpRequestParser} {value : List UInt8}
    (hcontent : ∀ c ∈ value, isContent c = true)
    (hlead : ∀ c, value.head? = some c → isBlank c = false) (hlen : P.fieldLen ≠ 0)
    (htok : token buffer p (p + value.length) = some value) :
    Scans (machine u) (Action.run buffer) p 15 P (value ++ crlf) 13
      { P with
        mark := p
        data := P.data.setHeader ((buffer.drop P.fieldStart).take P.fieldLen) value } := by
  have hwrite : Action.run buffer (p + value.length) .writeValue { P with mark := p } = some
      { P with
        mark := p
        data := P.data.setHeader ((buffer.drop P.fieldStart).take P.fieldLen) value } := by
    simp only [Action.run, onRequestHttpField, if_neg hlen, htok, Option.map_some]
  obtain ⟨-, -, hempty, hcr, hlf, -⟩ := next_between u
  have hend : ∀ {p P}, Scans (machine u) (Action.run buffer) p 17 P [10] 13 P := fun {p P} =>
    .cons hlf (machine_final u (by decide)) rfl .nil
  cases value with
  | nil =>
      refine .cons hempty (machine_final u (by decide)) ?_ hend
      have hwrite : Action.run buffer p .writeValue { P with mark := p } = _ := hwrite
      simp only [runActs, Action.run] at hwrite ⊢
      rw [Option.bind_some, hwrite]
      rfl
  | cons c value =>
      have hc : (isContent c && !isBlank c) = true := by
        rw [hcontent c List.mem_cons_self, hlead c rfl]
        rfl
      have hloop : Scans (machine u) (Action.run buffer) (p + 1) 16 { P with mark := p } value 16
          { P with mark := p } :=
        .loop (fun c hc => next_of_goes goes_value.2.2 (hcontent c (List.mem_cons_of_mem _ hc)))
          (machine_final u (by decide))
      refine .cons (next_of_goes goes_value.2.1 hc) (machine_final u (by decide)) rfl
        (hloop.append (.cons hcr (machine_final u (by decide)) ?_ hend))
      rw [List.length_cons, ← Nat.add_assoc, Nat.add_right_comm] at hwrite
      rw [runActs, hwrite]
      rfl

/-- A header line. -/
theorem passes_field {name value : List UInt8} (blanks : List UInt8) (hne : name ≠ [])
    (hname : ∀ c ∈ name, isToken c = true) (hblanks : ∀ c ∈ blanks, isBlank c = true)
    (hcontent : ∀ c ∈ value, isContent c = true)
    (hlead : ∀ c, value.head? = some c → isBlank c = false) :
    Passes u pre (name ++ ([58] ++ (blanks ++ (value ++ crlf)))) 13 13
      (·.setHeader name value) := by
  intro rest P hP
  obtain ⟨buffer, hbuf⟩ : ∃ buffer, pre ++ (name ++ ([58] ++ (blanks ++ (value ++ crlf)))) ++ rest
    = buffer := ⟨_, rfl⟩
  rw [hbuf]
  -- the name
  have hstart : Scans (machine u) (Action.run buffer) pre.length 13 P name 14
      { P with fieldStart := pre.length } := by
    obtain ⟨c, name, rfl⟩ := List.exists_cons_of_ne_nil hne
    exact .cons (next_of_goes goes_name.1 (hname c List.mem_cons_self))
      (machine_final u (by decide)) rfl
      (.loop (fun c hc => next_of_goes goes_name.2 (hname c (List.mem_cons_of_mem _ hc)))
        (machine_final u (by decide)))
  have hcolon : Scans (machine u) (Action.run buffer) (pre.length + name.length) 14
      { P with fieldStart := pre.length } [58] 15
      { P with fieldStart := pre.length, fieldLen := name.length } := by
    refine .cons (next_between u).2.1 (machine_final u (by decide)) ?_ .nil
    simp only [runActs, Action.run, Option.bind_some, Nat.add_sub_cancel_left]
  -- the value
  obtain ⟨mark, hblank⟩ := scans_blanks (u := u) buffer
    (p := pre.length + name.length + ([58] : List UInt8).length)
    (P := { P with fieldStart := pre.length, fieldLen := name.length }) hblanks
  have htok : token buffer (pre.length + name.length + ([58] : List UInt8).length + blanks.length)
      (pre.length + name.length + ([58] : List UInt8).length + blanks.length + value.length)
        = some value := by
    have h := token_part pre (name ++ ([58] ++ blanks)) value crlf rest
    simp only [List.append_assoc, List.length_append] at h hbuf
    rw [hbuf] at h
    simpa only [Nat.add_assoc] using h
  have hfield : (buffer.drop pre.length).take name.length = name := by
    rw [← hbuf]
    exact name_part (List.prefix_append _ _)
  have hvalue := scans_value (u := u) (P := { P with
    fieldStart := pre.length, fieldLen := name.length, mark }) hcontent hlead
      (by simpa [List.length_eq_zero_iff] using hne) htok
  rw [hfield] at hvalue
  exact ⟨_, hstart.append (hcolon.append (hblank.append hvalue)), hP, rfl⟩

/-- The lines of a list of headers. -/
theorem passes_fields {hs : List (List UInt8 × List UInt8)} (h : ∀ e ∈ hs, HttpRequest.Field e) :
    Passes u pre (hs.map fun e => e.1 ++ chars ":" ++ e.2 ++ crlf).flatten 13 13
      fun d => hs.foldl (fun d e => d.setHeader e.1 e.2) d := by
  refine Scanner.Passes.lines (fun e hmem pre => ?_) pre
  have he := h e hmem
  exact (passes_field [] he.name he.token (by simp) he.content he.leading).congr
    (by simp only [List.append_assoc]; rfl) fun _ => rfl

end Passes

/-! ## The whole text -/

namespace HttpRequest

variable {u : Bool} {pre : List UInt8} {r d : HttpRequest}

/-- The query and the fragment as they are written. -/
def setUri (r d : HttpRequest) : HttpRequest :=
  let d := { d with path := r.path }
  let d := if r.query = [] then d else { d with query := r.query }
  if r.fragment = [] then d else { d with fragment := r.fragment }

/-- From the path to the blank before the version. -/
theorem passes_uri (h : r.Expressible u) :
    Passes u pre (r.path ++ (if r.query = [] then [] else [63]) ++ r.query
      ++ (if r.fragment = [] then [] else [35]) ++ r.fragment ++ [32]) 3 4 r.setUri := by
  obtain ⟨rest, hpath, hsingle, htext⟩ := h.path
  by_cases hq : r.query = []
  · by_cases hf : r.fragment = []
    · exact (passes_path hsingle htext 32 [.requestPath, .requestUri] 4 (by simp)).congr
        (by simp [hpath, hq, hf]) fun d => by simp [setUri, hpath, hq, hf]
    · exact ((passes_path hsingle htext 35 [.requestPath, .requestUri] 20 (by simp)).trans
        (passes_fragment h.fragment hf)).congr
          (by simp [hpath, hq, hf]) fun d => by simp [setUri, hpath, hq, hf]
  · have hpath' : Passes u pre _ 3 29 _ := passes_path hsingle htext 63 [.requestPath] 29 (by simp)
    by_cases hf : r.fragment = []
    · exact (hpath'.trans (passes_query h.query hq 32 4 (by simp))).congr
        (by simp [hpath, hq, hf]) fun d => by simp [setUri, hpath, hq, hf]
    · exact ((hpath'.trans (passes_query h.query hq 35 20 (by simp))).trans
        (passes_fragment h.fragment hf)).congr
          (by simp [hpath, hq, hf]) fun d => by simp [setUri, hpath, hq, hf]

/-- The version as it is written. -/
theorem version_text {v : UInt8} (h : v = 0x10 ∨ v = 0x11) :
    ∃ c : UInt8, ((c = 48 ∧ v = 0x10) ∨ (c = 49 ∧ v = 0x11)) ∧
      chars " HTTP/" ++ decimalText (v >>> 4).toNat ++ chars "."
          ++ decimalText (v &&& 0x0F).toNat ++ crlf
        = [32] ++ (chars "HTTP/1." ++ [c] ++ crlf) := by
  rcases h with rfl | rfl
  · exact ⟨48, .inl ⟨rfl, rfl⟩, by decide⟩
  · exact ⟨49, .inr ⟨rfl, rfl⟩, by decide⟩

theorem passes_dumpLine (h : r.Expressible u) (hs : r.method ≠ .msearch) :
    Passes u [] r.dumpLine 1 13 fun d =>
      { r.setUri { d with method := r.method } with version := r.version } := by
  obtain ⟨c, hc, htext⟩ := version_text h.version
  refine (((passes_method h.method hs).trans (passes_uri h)).trans (passes_version hc)).congr ?_
    fun _ => rfl
  have hquery : chars "?" = [63] := by decide
  have hfragment : chars "#" = [35] := by decide
  have hblank : chars " " = [32] := by decide
  rw [dumpLine, hquery, hfragment, hblank]
  simp only [List.append_assoc] at htext ⊢
  rw [htext]

/-! ### The headers -/

/-- What a number is written with. -/
theorem isContent_decimalText (n : Nat) :
    ∀ c ∈ decimalText n, isContent c = true ∧ isBlank c = false := by
  intro c hc
  obtain ⟨ch, hch, rfl⟩ := List.mem_map.mp hc
  rw [Nat.toString_eq_repr, Nat.toList_repr] at hch
  have hdigit := Nat.isDigit_of_mem_toDigits (by decide) (by decide) hch
  have hrange : ∀ k < 58, 48 ≤ k → isContent k.toUInt8 = true ∧ isBlank k.toUInt8 = false := by
    decide
  simp only [Char.isDigit, Bool.and_eq_true, decide_eq_true_eq, ge_iff_le,
    UInt32.le_iff_toNat_le] at hdigit
  exact hrange ch.toNat (Nat.lt_succ_of_le hdigit.2) hdigit.1

theorem field_connection (r : HttpRequest) :
    (chars "connection" ≠ []) ∧ (∀ c ∈ chars "connection", isToken c = true) ∧
      (∀ c ∈ r.connection, isContent c = true) ∧
      ∀ c, r.connection.head? = some c → isBlank c = false := by
  rw [connection]
  split
  · refine ⟨by decide, List.all_eq_true.mp rfl, List.all_eq_true.mp rfl, fun c hc => ?_⟩
    cases hc
    rfl
  · refine ⟨by decide, List.all_eq_true.mp rfl, List.all_eq_true.mp rfl, fun c hc => ?_⟩
    cases hc
    rfl

/-- The headers as a list of lines set them, one after another. -/
def setHeaders (hs : List (List UInt8 × List UInt8)) (d : HttpRequest) : HttpRequest :=
  hs.foldl (fun d e => d.setHeader e.1 e.2) d

/-- The line of a header that `dump` writes itself, with a blank after the colon. -/
theorem passes_written {name value text : List UInt8} (htext : text = name ++ [58, 32])
    (hne : name ≠ []) (hname : ∀ c ∈ name, isToken c = true)
    (hcontent : ∀ c ∈ value, isContent c = true)
    (hlead : ∀ c, value.head? = some c → isBlank c = false) :
    Passes u pre (text ++ value ++ crlf) 13 13 (·.setHeader name value) :=
  (passes_field [32] hne hname (by simp [isBlank]) hcontent hlead).congr
    (by simp [htext]) fun _ => rfl

/-- All header lines. -/
theorem passes_headers (h : r.Expressible u) :
    Passes u pre ((chars "connection: " ++ r.connection ++ crlf)
      ++ (r.dumped.map fun e => e.1 ++ chars ":" ++ e.2 ++ crlf).flatten
      ++ if r.body = [] then [] else
        chars "content-length: " ++ decimalText r.body.length ++ crlf) 13 13
      (setHeaders r.sent) := by
  obtain ⟨hne, hname, hcontent, hlead⟩ := field_connection r
  have hconn : Passes u pre (chars "connection: " ++ r.connection ++ crlf) 13 13
      (·.setHeader (chars "connection") r.connection) :=
    passes_written (by decide) hne hname hcontent hlead
  have hfields : ∀ e ∈ r.dumped, Field e := fun e he => h.field e (List.mem_filter.mp he).1
  have hlines := hconn.trans (passes_fields hfields)
  by_cases hb : r.body = []
  · refine hlines.congr (by simp [hb]) fun d => ?_
    simp [setHeaders, sent, hb]
  · have hlen : Passes u (pre ++ ((chars "connection: " ++ r.connection ++ crlf)
          ++ (r.dumped.map fun e => e.1 ++ chars ":" ++ e.2 ++ crlf).flatten))
        (chars "content-length: " ++ decimalText r.body.length ++ crlf) 13 13
        (·.setHeader (chars "content-length") (decimalText r.body.length)) :=
      passes_written (by decide) (by decide) (List.all_eq_true.mp rfl)
        (fun c hc => (isContent_decimalText _ c hc).1)
        fun c hc => (isContent_decimalText _ c (List.mem_of_head? hc)).2
    refine (hlines.trans hlen).congr (by simp [hb]) fun d => ?_
    simp [setHeaders, sent, hb]

/-! ### The map -/

theorem setHeaders_headers (hs : List (List UInt8 × List UInt8)) (d : HttpRequest) :
    (setHeaders hs d).headers = hs.foldl assignHeader d.headers :=
  (List.foldl_hom HttpRequest.headers fun _ _ => rfl).symm

/-- The headers of a line leave the other fields alone. -/
theorem setHeaders_frame (hs : List (List UInt8 × List UInt8)) (d : HttpRequest) :
    { setHeaders hs d with headers := d.headers } = d := by
  induction hs generalizing d with
  | nil => rfl
  | cons e hs ih =>
      exact congrArg (fun x => { x with headers := d.headers }) (ih (d.setHeader e.1 e.2))

/-- No two headers that are sent have one name. -/
theorem sent_pairwise (h : r.Expressible u) :
    r.sent.Pairwise fun e e' => headerKey e ≠ headerKey e' := by
  refine written_pairwise h.sorted h.noLength r.connection (fun e he => ?_) ?_
  · split at he
    · cases he
    · rw [List.mem_singleton.mp he]
  · split <;> simp

/-! ### The end of the headers -/

/-- All that `dump` writes before the empty line. -/
def head (r : HttpRequest) : List UInt8 :=
  r.dumpLine ++ ((chars "connection: " ++ r.connection ++ crlf)
    ++ (r.dumped.map fun e => e.1 ++ chars ":" ++ e.2 ++ crlf).flatten
    ++ if r.body = [] then [] else
      chars "content-length: " ++ decimalText r.body.length ++ crlf)

theorem dump_eq (r : HttpRequest) : r.dump = r.head ++ (crlf ++ r.body) := by
  by_cases hb : r.body = []
  · simp [dump, head, hb]
  · simp [dump, head, hb]

theorem passes_head (h : r.Expressible u) (hs : r.method ≠ .msearch) :
    Passes u [] r.head 1 13 fun d =>
      setHeaders r.sent { r.setUri { d with method := r.method } with version := r.version } :=
  (passes_dumpLine h hs).trans (passes_headers h)

/-- The empty line halts the machine, and the rest is left. -/
theorem run_of_passes {head : List UInt8} (rest : List UInt8) {f : HttpRequest → HttpRequest}
    (h : Passes u [] head 1 13 f) :
    ∃ P, HttpRequestParser.run u (head ++ (crlf ++ rest)) {} = some (P, head.length + 2) ∧
      P.error = 0 ∧ P.cs = httpParserFirstFinal ∧ P.data = f {} := by
  obtain ⟨P, hscan, hP, hd⟩ := h (crlf ++ rest) (clear {}) ⟨rfl, rfl, rfl⟩
  rw [List.nil_append] at hscan
  obtain ⟨-, -, -, -, -, hcr, hlf⟩ := next_between u
  have hend : scan (machine u) (Action.run (head ++ (crlf ++ rest))) (0 + head.length) 13 P
      (crlf ++ rest) = some ({ P with
        fieldStart := 0 + head.length
        bodyStart := 0 + head.length + 1 + 1 }, 2, .halt 348) := by
    have hcr : (machine u).next 13 13 = some ([.startField], 18) := hcr
    have hlf : (machine u).next 18 10 = some ([.done], 348) := hlf
    have hfinal : (machine u).final 348 = true := rfl
    have hdone : (P.xmlSent || P.jsonSent) = false := by rw [hP.2.1, hP.2.2]; rfl
    simp only [crlf, List.cons_append, List.nil_append, scan, hcr, hlf, runActs, Action.run,
      Option.bind_some, machine_final u (show 18 < 348 by decide), hfinal, hdone, if_true,
      Bool.false_eq_true, if_false, Option.map_some]
  have hrun := hscan.scan_append (crlf ++ rest)
  rw [List.length_nil, hend, Option.map_some] at hrun
  refine ⟨{ P with
    fieldStart := 0 + head.length
    bodyStart := 0 + head.length + 1 + 1
    cs := httpParserFirstFinal }, ?_, hP.1, rfl, hd⟩
  rw [HttpRequestParser.run]
  have hstart : scan (machine u) (Action.run (head ++ (crlf ++ rest))) 0
      ({} : HttpRequestParser).cs (clear {}) (head ++ (crlf ++ rest)) = _ := hrun
  rw [hstart]
  rfl

/-! ## The theorem -/

/-- The request that is given back: the parts of `r`, and its headers as `sent`. -/
structure GivenBack (r d : HttpRequest) : Prop where
  method : d.method = r.method
  version : d.version = r.version
  path : d.path = r.path
  query : d.query = r.query
  fragment : d.fragment = r.fragment
  sorted : OrderedSet.SortedBy headerKey d.headers
  headers : ∀ e, e ∈ d.headers ↔ e ∈ r.sent

/-- `execute` on the text of `toString` finishes without error, gives the request
back and leaves the body. -/
def ReadsBack (u : Bool) (r : HttpRequest) : Prop :=
  ∃ P n, HttpRequestParser.execute u r.dump {} = some (P, n) ∧ P.hasError = false ∧
    P.isFinished = 1 ∧ r.GivenBack P.data ∧ r.dump.drop n = r.body

theorem givenBack (h : r.Expressible u) :
    r.GivenBack (setHeaders r.sent
      { r.setUri { ({} : HttpRequest) with method := r.method } with version := r.version }) := by
  obtain ⟨d, hd⟩ : ∃ d, { r.setUri { ({} : HttpRequest) with method := r.method } with
    version := r.version } = d := ⟨_, rfl⟩
  have hparts : d.method = r.method ∧ d.version = r.version ∧ d.path = r.path ∧
      d.query = r.query ∧ d.fragment = r.fragment ∧ d.headers = [] := by
    subst hd
    unfold setUri
    split <;> split <;> simp_all
  obtain ⟨hm, hv, hp, hq, hf, hh⟩ := hparts
  rw [hd]
  have hframe := setHeaders_frame r.sent d
  have hnew : ∀ e ∈ d.headers, ∀ e' ∈ r.sent, headerKey e ≠ headerKey e' := by simp [hh]
  obtain ⟨hsorted, hmem⟩ := assignHeaders_fresh (by rw [hh]; exact List.Pairwise.nil) hnew
    (sent_pairwise h)
  rw [← setHeaders_headers] at hsorted hmem
  exact
    { method   := (congrArg HttpRequest.method hframe).trans hm
      version  := (congrArg HttpRequest.version hframe).trans hv
      path     := (congrArg HttpRequest.path hframe).trans hp
      query    := (congrArg HttpRequest.query hframe).trans hq
      fragment := (congrArg HttpRequest.fragment hframe).trans hf
      sorted   := hsorted
      headers  := fun e => by simpa [hh] using hmem e }

theorem dump_ne_nil (r : HttpRequest) : r.dump ≠ [] := by
  rw [dump_eq]
  simp [crlf]

theorem readsBack (h : r.Expressible u) (hs : r.method ≠ .msearch)
    (hlen : r.dump.length ≤ intMax) : r.ReadsBack u := by
  obtain ⟨P, hrun, herror, hcs, hd⟩ := run_of_passes r.body (passes_head h hs)
  refine ⟨P, r.head.length + 2, ?_, ?_, ?_, hd ▸ givenBack h, ?_⟩
  · rw [HttpRequestParser.execute_eq_run r.dump_ne_nil hlen, dump_eq, hrun]
  · rw [hasError, herror, hcs]
    rfl
  · rw [isFinished, hcs]
    rfl
  · rw [dump_eq]
    have hlen : r.head.length + 2 = (r.head ++ crlf).length := by simp [crlf]
    rw [hlen, ← List.append_assoc, List.drop_left]

/-- `M` begins a method of the grammar, `-` does not continue it. -/
theorem msearch_refused (hs : r.method = .msearch) {P : HttpRequestParser} {n : Nat}
    (h : HttpRequestParser.execute u r.dump {} = some (P, n)) : P.hasError = true := by
  obtain ⟨tail, htail⟩ : ∃ tail, r.dump = 77 :: 45 :: tail := by
    have hname : httpMethodToString r.method = 77 :: 45 :: chars "SEARCH" := by
      rw [hs]
      decide
    exact ⟨_, by rw [dump, dumpLine, hname]; rfl⟩
  have hnext : next u 1 77 = some ([.mark], 2) ∧ next u 2 45 = none := by
    cases u <;> decide
  have hM : (machine u).next ({} : HttpRequestParser).cs 77 = some ([.mark], 2) := hnext.1
  have hdash : (machine u).next 2 45 = none := hnext.2
  have hrun := (HttpRequestParser.run_of_execute r.dump_ne_nil h).1
  rw [HttpRequestParser.run, htail] at hrun
  simp only [scan, hM, hdash, runActs, Action.run, Option.bind_some,
    machine_final u (show 2 < 348 by decide), Bool.false_eq_true, if_false, Option.map_some,
    Option.some.injEq, Prod.mk.injEq] at hrun
  rw [← hrun.1]
  rfl

/-- What `dump` writes of a request that the grammar can express is read back exactly if
the method is not `M-SEARCH` and an `int` can count the bytes: of more bytes the call
fails its assertion. -/
theorem dump_roundtrip_iff (u : Bool) (r : HttpRequest) (h : r.Expressible u) :
    r.ReadsBack u ↔ r.method ≠ .msearch ∧ r.dump.length ≤ intMax := by
  refine ⟨?_, fun hr => readsBack h hr.1 hr.2⟩
  rintro ⟨P, n, hexec, herror, -⟩
  refine ⟨fun hs => ?_, (HttpRequestParser.run_of_execute r.dump_ne_nil hexec).2⟩
  rw [msearch_refused hs hexec] at herror
  cases herror

/-! ### A request -/

/-- A request with a query, a header and a body. -/
def small (m : HttpMethod) : HttpRequest :=
  { method := m, path := chars "/a", query := chars "x=1", body := [0, 10],
    headers := [(chars "Host", chars "h")] }

theorem small_expressible {m : HttpMethod} (hm : m ≠ .invalidMethod) :
    (small m).Expressible false where
  method   := hm
  version  := .inr rfl
  path     := ⟨chars "a", by simp only [small]; decide, by decide,
    .char (.inl (by decide)) .nil⟩
  query    := .char (.inl (by decide)) (.char (.inl (by decide))
    (.char (.inl (by decide)) .nil))
  fragment := .nil
  sorted   := List.pairwise_singleton _ _
  field    := by
    intro e he
    rw [List.mem_singleton.mp he]
    refine ⟨by decide, List.all_eq_true.mp rfl, List.all_eq_true.mp rfl, fun c hc => ?_⟩
    have hhead : (chars "h").head? = some 104 := by decide
    rw [hhead] at hc
    cases hc
    decide
  noLength := by
    intro e he
    rw [List.mem_singleton.mp he]
    decide

/-- `POST` with a body. -/
theorem dump_roundtrip_post : (small .post).ReadsBack false :=
  (dump_roundtrip_iff false (small .post) (small_expressible (by decide))).mpr
    ⟨by decide, by decide +kernel⟩

/-- A request with `M-SEARCH` can be expressed part by part, and its text is refused. -/
theorem dump_msearch_lost :
    (small .msearch).Expressible false ∧ ¬ (small .msearch).ReadsBack false := by
  refine ⟨small_expressible (by decide), ?_⟩
  rintro ⟨P, n, hexec, herror, -⟩
  rw [msearch_refused rfl hexec] at herror
  cases herror

end HttpRequest

end CoLib.Http
