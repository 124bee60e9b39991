/-
# `CoLib.Http.Method` — finding the method of a request

`StringToHttpMethod` compares whole strings.  `CharsToHttpMethod`, which the
parser uses, has a pointer into the buffer and no length: it takes the first
method whose name is what the buffer begins with, so a token that goes on behind
the name of a method is taken for this method.

**Proved here.** `onRequestMethod_exact_iff`: the tokens on which the two agree
are those that no method's name is a proper beginning of.
-/
import CoLib.Http.Parser

namespace CoLib.Http

/-- `strcmp(a, b) == 0`. -/
def strcmpEq (a b : List UInt8) : Bool :=
  a.takeWhile (· != 0) == b.takeWhile (· != 0)

/-- `StringToHttpMethod`. -/
def stringToHttpMethod (m : List UInt8) : HttpMethod :=
  match httpMethodMap.find? fun (_, name) => strcmpEq (chars name) m with
  | some (method, _) => method
  | none => .invalidMethod

/-- An upper-case letter or a digit. -/
def isMethodChar (c : UInt8) : Bool := (65 ≤ c && c ≤ 90) || (48 ≤ c && c ≤ 57)

/-- A method token of the machine, without its punctuation. -/
structure IsMethodToken (t : List UInt8) : Prop where
  nonempty : 1 ≤ t.length
  short : t.length ≤ 20
  chars : ∀ c ∈ t, isMethodChar c = true

instance (t : List UInt8) : Decidable (IsMethodToken t) :=
  decidable_of_iff (1 ≤ t.length ∧ t.length ≤ 20 ∧ ∀ c ∈ t, isMethodChar c = true)
    ⟨fun h => ⟨h.1, h.2.1, h.2.2⟩, fun h => ⟨h.nonempty, h.short, h.chars⟩⟩

/-! ## The table -/

/-- No name is the beginning of another, none has a blank or a zero byte, and each has
a method of its own. -/
theorem httpMethodMap_names :
    ∀ e ∈ httpMethodMap, (chars e.2).contains 32 = false ∧ (chars e.2).contains 0 = false ∧
      e.1 ≠ .invalidMethod ∧
      ∀ e' ∈ httpMethodMap,
        (chars e.2).isPrefixOf (chars e'.2) = true ∨ e.1 = e'.1 → e = e' := by
  decide +kernel

section Names

variable {e : HttpMethod × String}

theorem name_no_blank (he : e ∈ httpMethodMap) : (32 : UInt8) ∉ chars e.2 := by
  intro hmem
  have hno := (httpMethodMap_names e he).1
  rw [List.contains_iff_mem.mpr hmem] at hno
  cases hno

theorem name_no_zero (he : e ∈ httpMethodMap) : (0 : UInt8) ∉ chars e.2 := by
  intro hmem
  have hno := (httpMethodMap_names e he).2.1
  rw [List.contains_iff_mem.mpr hmem] at hno
  cases hno

theorem name_valid (he : e ∈ httpMethodMap) : e.1 ≠ .invalidMethod :=
  (httpMethodMap_names e he).2.2.1

theorem name_unique {e' : HttpMethod × String} (he : e ∈ httpMethodMap)
    (he' : e' ∈ httpMethodMap) (h : chars e.2 <+: chars e'.2) : e = e' :=
  (httpMethodMap_names e he).2.2.2 e' he' (.inl (List.isPrefixOf_iff_prefix.mpr h))

theorem method_unique {e' : HttpMethod × String} (he : e ∈ httpMethodMap)
    (he' : e' ∈ httpMethodMap) (h : e.1 = e'.1) : e = e' :=
  (httpMethodMap_names e he).2.2.2 e' he' (.inr h)

end Names

/-! ## Comparing -/

/-- `strncmp` over the whole of a name is a comparison with a prefix. -/
theorem strncmpEq_name_iff {name m : List UInt8} (h : (0 : UInt8) ∉ name) :
    strncmpEq name.length name m = true ↔ name <+: m := by
  induction name generalizing m with
  | nil => exact iff_of_true rfl (List.nil_prefix)
  | cons x name ih =>
      rw [List.mem_cons, not_or] at h
      cases m with
      | nil =>
          have hx : (x == 0) = false := beq_eq_false_iff_ne.mpr (Ne.symm h.1)
          refine iff_of_false ?_ (fun hpre => ?_)
          · simp [strncmpEq, hx]
          · cases List.prefix_nil.mp hpre
      | cons y m =>
          have hx : (x == 0) = false := beq_eq_false_iff_ne.mpr (Ne.symm h.1)
          rw [List.cons_prefix_cons, ← ih h.2]
          simp [strncmpEq, hx]

/-- What begins a text without blanks begins it before the first blank. -/
theorem prefix_before_blank {name t rest : List UInt8} (h : (32 : UInt8) ∉ name) :
    name <+: t ++ 32 :: rest ↔ name <+: t := by
  constructor
  · intro hpre
    rcases List.prefix_or_prefix_of_prefix hpre (List.prefix_append t (32 :: rest)) with h' | h'
    · exact h'
    · obtain ⟨s, rfl⟩ := h'
      have hs : s <+: 32 :: rest := (List.prefix_append_right_inj t).mp hpre
      cases s with
      | nil => exact (List.append_nil t).symm ▸ List.prefix_rfl
      | cons c s =>
          obtain ⟨rfl, _⟩ := List.cons_prefix_cons.mp hs
          exact absurd (List.mem_append_right _ List.mem_cons_self) h
  · intro hpre
    exact hpre.trans (List.prefix_append _ _)

section Token

variable {t : List UInt8}

theorem IsMethodToken.no_zero (ht : IsMethodToken t) : (0 : UInt8) ∉ t := by
  intro h
  exact absurd (ht.chars 0 h) (by decide)

theorem takeWhile_of_no_zero {s : List UInt8} (h : (0 : UInt8) ∉ s) :
    s.takeWhile (· != 0) = s := by
  rw [List.takeWhile_eq_self_iff]
  intro c hc
  rw [bne_iff_ne]
  rintro rfl
  exact h hc

/-- The entry that `StringToHttpMethod` looks for. -/
theorem strcmpEq_iff {e : HttpMethod × String} (he : e ∈ httpMethodMap)
    (ht : IsMethodToken t) : strcmpEq (chars e.2) t = true ↔ chars e.2 = t := by
  rw [strcmpEq, takeWhile_of_no_zero (name_no_zero he), takeWhile_of_no_zero ht.no_zero,
    beq_iff_eq]

/-- The entry that `CharsToHttpMethod` looks for. -/
theorem strncmpEq_token_iff {e : HttpMethod × String} (he : e ∈ httpMethodMap)
    (rest : List UInt8) :
    strncmpEq (chars e.2).length (chars e.2) (t ++ 32 :: rest) = true ↔ chars e.2 <+: t := by
  rw [strncmpEq_name_iff (name_no_zero he), prefix_before_blank (name_no_blank he)]

/-- What `StringToHttpMethod` finds is the method of that name. -/
theorem stringToHttpMethod_cases (ht : IsMethodToken t) :
    (∃ e ∈ httpMethodMap, chars e.2 = t ∧ stringToHttpMethod t = e.1) ∨
      (∀ e ∈ httpMethodMap, chars e.2 ≠ t) ∧ stringToHttpMethod t = .invalidMethod := by
  rw [stringToHttpMethod]
  split
  · rename_i method name hfind
    have hmem := List.mem_of_find?_eq_some hfind
    have hcmp : strcmpEq (chars name) t = true := by simpa using List.find?_some hfind
    exact .inl ⟨_, hmem, (strcmpEq_iff hmem ht).mp hcmp, rfl⟩
  · rename_i hnone
    refine .inr ⟨?_, rfl⟩
    intro e he heq
    exact absurd ((strcmpEq_iff he ht).mpr heq) (List.find?_eq_none.mp hnone e he)

theorem stringToHttpMethod_iff (ht : IsMethodToken t) {e : HttpMethod × String}
    (he : e ∈ httpMethodMap) : stringToHttpMethod t = e.1 ↔ t = chars e.2 := by
  rcases stringToHttpMethod_cases ht with ⟨e', he', hname, hfound⟩ | ⟨hnone, hfound⟩
  · rw [hfound, ← hname]
    constructor
    · intro hmethod
      rw [method_unique he' he hmethod]
    · intro heq
      rw [name_unique he' he (heq ▸ List.prefix_rfl)]
  · rw [hfound]
    exact iff_of_false (name_valid he).symm (fun heq => hnone e he heq.symm)

/-- What `CharsToHttpMethod` finds is a method whose name begins the token. -/
theorem charsToHttpMethod_cases (t rest : List UInt8) :
    (∃ e ∈ httpMethodMap, chars e.2 <+: t ∧ charsToHttpMethod (t ++ 32 :: rest) = e.1) ∨
      (∀ e ∈ httpMethodMap, ¬ chars e.2 <+: t) ∧
        charsToHttpMethod (t ++ 32 :: rest) = .invalidMethod := by
  rw [charsToHttpMethod]
  split
  · rename_i method name hfind
    have hmem := List.mem_of_find?_eq_some hfind
    have hcmp : strncmpEq (chars name).length (chars name) (t ++ 32 :: rest) = true := by
      simpa using List.find?_some hfind
    exact .inl ⟨_, hmem, (strncmpEq_token_iff hmem rest).mp hcmp, rfl⟩
  · rename_i hnone
    refine .inr ⟨?_, rfl⟩
    intro e he hpre
    exact absurd ((strncmpEq_token_iff he rest).mpr hpre) (List.find?_eq_none.mp hnone e he)

end Token

/-! ## The callback -/

namespace HttpRequestParser

/-- The effect of a callback that names the method `m`. -/
def withMethod (m : HttpMethod) (P : HttpRequestParser) : HttpRequestParser :=
  match m with
  | .invalidMethod => P.setError 1000
  | m => { P with data := { P.data with method := m } }

/-- `on_request_method` on the token `t` at `start`: the method found in the buffer is
the one of this name, and it is set; error 1000 where there is none. -/
structure ExactMethod (buffer : List UInt8) (start : Nat) (t : List UInt8)
    (P : HttpRequestParser) : Prop where
  named : ∀ e ∈ httpMethodMap, charsToHttpMethod (buffer.drop start) = e.1 ↔ t = chars e.2
  agrees : charsToHttpMethod (buffer.drop start) = stringToHttpMethod t
  sets : P.onRequestMethod buffer start (start + t.length) =
    some (P.withMethod (stringToHttpMethod t))

theorem onRequestMethod_eq (buffer : List UInt8) (start n : Nat) (P : HttpRequestParser) :
    P.onRequestMethod buffer start (start + n) =
      some (P.withMethod (charsToHttpMethod (buffer.drop start))) := by
  rw [onRequestMethod]
  split
  · rename_i hinvalid
    rw [hinvalid, token, if_pos (Nat.le_add_right ..)]
    rfl
  · rename_i m hvalid
    cases hm : charsToHttpMethod (buffer.drop start) with
    | invalidMethod => exact absurd hm hvalid
    | _ => rfl

/-- The method of a token is right exactly if the token goes on behind the name of no
method. -/
theorem onRequestMethod_exact_iff {buffer : List UInt8} {start : Nat} {t rest : List UInt8}
    (ht : IsMethodToken t) (hbuffer : buffer.drop start = t ++ 32 :: rest)
    (P : HttpRequestParser) :
    P.ExactMethod buffer start t ↔ ∀ e ∈ httpMethodMap, chars e.2 <+: t → chars e.2 = t := by
  constructor
  · intro h e he hpre
    rcases charsToHttpMethod_cases t rest with ⟨e', he', _, hfound⟩ | ⟨hnone, _⟩
    · have ht' : t = chars e'.2 := (h.named e' he').mp (by rw [hbuffer, hfound])
      have hsame : e = e' := name_unique he he' (by rwa [← ht'])
      rw [hsame, ht']
    · exact absurd hpre (hnone e he)
  · intro h
    have hagrees : charsToHttpMethod (buffer.drop start) = stringToHttpMethod t := by
      rw [hbuffer]
      rcases charsToHttpMethod_cases t rest with ⟨e, he, hpre, hfound⟩ | ⟨hnone, hfound⟩
      · rw [hfound]
        exact ((stringToHttpMethod_iff ht he).mpr (h e he hpre).symm).symm
      · rw [hfound]
        rcases stringToHttpMethod_cases ht with ⟨e, he, hname, _⟩ | ⟨_, hfound'⟩
        · exact absurd (hname ▸ List.prefix_rfl) (hnone e he)
        · exact hfound'.symm
    refine ⟨?_, hagrees, ?_⟩
    · intro e he
      rw [hagrees]
      exact stringToHttpMethod_iff ht he
    · rw [onRequestMethod_eq, hagrees]

theorem onRequestMethod_exact_iff_get :
    ExactMethod (chars "GET / HTTP/1.1") 0 (chars "GET") {} :=
  have hbuffer : (chars "GET / HTTP/1.1").drop 0 = chars "GET" ++ 32 :: chars "/ HTTP/1.1" := by
    decide
  (onRequestMethod_exact_iff (by decide +kernel) hbuffer {}).mpr (by decide +kernel)

/-- A token that goes on behind the name of a method. -/
theorem onRequestMethod_getx :
    IsMethodToken (chars "GETX") ∧
      ¬ ExactMethod (chars "GETX / HTTP/1.1") 0 (chars "GETX") {} := by
  refine ⟨by decide +kernel, ?_⟩
  intro h
  exact absurd h.agrees (by decide +kernel)

end HttpRequestParser

end CoLib.Http
