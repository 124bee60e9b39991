/-
# `CoLib.Log.Pattern` — the language of the patterns

A pattern is a list of pieces: literals without `%`, the escape `%%`, and the
directives `%x` and `%x{fmt}`, with `x` one of twelve letters.  A bare `%x` ends
where no letter and no brace follows.

`LogFormatter::init` reads this language but for the escape: it takes the first
sign of `%%` for a `%` and goes on from the second, which then starts the next
piece.  So there are two ways to read an escape, the one meant (both signs) and
the one done (one sign), and `init` is right on the texts that have no reading
of either way with an escape in it.

**Proved here.** What `init` does on the texts it accepts, which these are, and
the texts on which it meets the language.
-/
import CoLib.Log.Formatter

namespace CoLib.Log

open Config (Text)

/-- A piece of a pattern. -/
inductive PatternPiece where
  | literal (str : Text)
  | escape
  | bare (x : Char)
  | braced (x : Char) (fmt : Text)
  deriving DecidableEq

/-- What a formatter puts out, with the texts character by character: two lists
of items with the same tokens write the same, whatever the event is. -/
inductive Token where
  | char (c : Char)
  | item (i : FormatItem)
  deriving DecidableEq

def FormatItem.tokens : FormatItem → List Token
  | .string str => str.map Token.char
  | i => [.item i]

/-- The tokens of a list of items. -/
def tokensOf (items : List FormatItem) : List Token := items.flatMap FormatItem.tokens

/-- The letters of the directives. -/
def letters : Text := "mprctndflTFN".toList

/-- A bare directive may end before `rest`. -/
def EndsWord (rest : Text) : Prop :=
  ∀ c ∈ rest.head?, c.isAlpha = false ∧ c ≠ '{' ∧ c ≠ '}'

instance (rest : Text) : Decidable (EndsWord rest) := by
  unfold EndsWord
  infer_instance

namespace PatternPiece

/-- The text of a piece.  Where `half` is set an escape is its first sign only. -/
def text (half : Bool) : PatternPiece → Text
  | literal str => str
  | escape => if half then ['%'] else ['%', '%']
  | bare x => ['%', x]
  | braced x fmt => '%' :: x :: '{' :: (fmt ++ ['}'])

/-- The text of a list of pieces. -/
def texts (half : Bool) (ps : List PatternPiece) : Text := ps.flatMap (text half)

/-- The piece may stand before `rest`. -/
def Fits (half : Bool) (rest : Text) : PatternPiece → Prop
  | literal str => '%' ∉ str
  | escape => half = true → rest.head? = some '%'
  | bare x => x ∈ letters ∧ EndsWord rest
  | braced x fmt => x ∈ letters ∧ '}' ∉ fmt

/-- The pieces are of the language, each before the text of those after it. -/
def Fit (half : Bool) : List PatternPiece → Prop
  | [] => True
  | p :: ps => p.Fits half (texts half ps) ∧ Fit half ps

/-- What a piece stands for: a literal for itself, an escape for one sign, a
directive for the item of its letter, with its format. -/
def tokens : PatternPiece → List Token
  | literal str => str.map Token.char
  | escape => [.char '%']
  | bare x => (formatItem [x] []).toList.map Token.item
  | braced x fmt => (formatItem [x] fmt).toList.map Token.item

@[simp] theorem texts_nil (half : Bool) : texts half [] = [] := rfl

@[simp] theorem texts_cons (half : Bool) (p : PatternPiece) (ps : List PatternPiece) :
    texts half (p :: ps) = p.text half ++ texts half ps := rfl

end PatternPiece

/-- `init` meets the language on the text `t`: pieces of the language with this
text are rendered in order and without an error, and where there are none the
error is set. -/
def LogFormatter.Meets (t : Text) : Prop :=
  (∀ ps, PatternPiece.Fit false ps → PatternPiece.texts false ps = t →
    (LogFormatter.create t).isError = false ∧
      tokensOf (LogFormatter.create t).items = ps.flatMap PatternPiece.tokens) ∧
  ((¬ ∃ ps, PatternPiece.Fit false ps ∧ PatternPiece.texts false ps = t) →
    (LogFormatter.create t).isError = true)

/-! ## Readings -/

/-- The text `t` is read as the tokens `ts`, a literal character by character. -/
inductive Reads (half : Bool) : Text → List Token → Prop
  | nil : Reads half [] []
  | char {c : Char} {t : Text} {ts : List Token} :
      c ≠ '%' → Reads half t ts → Reads half (c :: t) (.char c :: ts)
  | escape {t : Text} {ts : List Token} :
      half = false → Reads half t ts → Reads half ('%' :: '%' :: t) (.char '%' :: ts)
  | sign {t : Text} {ts : List Token} :
      half = true → Reads half ('%' :: t) ts → Reads half ('%' :: '%' :: t) (.char '%' :: ts)
  | bare {x : Char} {i : FormatItem} {t : Text} {ts : List Token} :
      formatItem [x] [] = some i → EndsWord t → Reads half t ts →
      Reads half ('%' :: x :: t) (.item i :: ts)
  | braced {x : Char} {fmt : Text} {i : FormatItem} {t : Text} {ts : List Token} :
      formatItem [x] fmt = some i → '}' ∉ fmt → Reads half t ts →
      Reads half ('%' :: x :: '{' :: (fmt ++ '}' :: t)) (.item i :: ts)

theorem formatItem_isSome (x : Char) (fmt : Text) :
    (formatItem [x] fmt).isSome = true ↔ x ∈ letters := by
  constructor
  · intro h
    unfold formatItem at h
    split at h
    case h_13 => cases h
    all_goals
      rename_i hx
      rw [List.head_eq_of_cons_eq hx]
      decide
  · intro h
    have hx : x ∈ ['m', 'p', 'r', 'c', 't', 'n', 'd', 'f', 'l', 'T', 'F', 'N'] := h
    simp only [List.mem_cons, List.not_mem_nil, or_false] at hx
    rcases hx with rfl | rfl | rfl | rfl | rfl | rfl | rfl | rfl | rfl | rfl | rfl | rfl <;> rfl

/-- Only a letter has an item. -/
theorem formatItem_some {str fmt : Text} {i : FormatItem} (h : formatItem str fmt = some i) :
    ∃ x, str = [x] ∧ x ∈ letters := by
  have hx : ∃ x, str = [x] := by
    rw [formatItem.eq_def] at h
    split at h <;> first | exact ⟨_, rfl⟩ | cases h
  obtain ⟨x, rfl⟩ := hx
  exact ⟨x, rfl, (formatItem_isSome x fmt).mp (by rw [h]; rfl)⟩

/-- An item of the table is no text. -/
theorem tokens_of_formatItem {str fmt : Text} {i : FormatItem} (h : formatItem str fmt = some i) :
    i.tokens = [.item i] := by
  rw [formatItem.eq_def] at h
  split at h <;> cases h <;> rfl

theorem letters_alpha {x : Char} (h : x ∈ letters) : x.isAlpha = true ∧ x ≠ '%' ∧ x ≠ '{' := by
  have hall : letters.all (fun y => y.isAlpha && y != '%' && y != '{') = true := by decide
  simpa [and_assoc] using List.all_eq_true.mp hall x h

namespace Reads

variable {half : Bool} {t : Text} {ts : List Token}

/-- A literal is read as its characters. -/
theorem literal {str : Text} (hstr : '%' ∉ str) (h : Reads half t ts) :
    Reads half (str ++ t) (str.map Token.char ++ ts) := by
  induction str with
  | nil => exact h
  | cons c str ih =>
      rw [List.mem_cons, not_or] at hstr
      exact .char (Ne.symm hstr.1) (ih hstr.2)

/-- Pieces that fit are a reading of their text. -/
theorem of_fit {ps : List PatternPiece} (h : PatternPiece.Fit half ps) :
    Reads half (PatternPiece.texts half ps) (ps.flatMap PatternPiece.tokens) := by
  induction ps with
  | nil => exact .nil
  | cons p ps ih =>
      obtain ⟨hp, hps⟩ := h
      have hrest := ih hps
      rw [PatternPiece.texts_cons, List.flatMap_cons]
      cases p with
      | literal str => exact hrest.literal hp
      | escape =>
          cases half with
          | false => exact .escape rfl hrest
          | true =>
              -- the sign after the first one is the head of what follows
              obtain ⟨t', ht'⟩ := List.head?_eq_some_iff.mp (hp rfl)
              rw [ht'] at hrest ⊢
              exact .sign rfl hrest
      | bare x =>
          obtain ⟨hx, hends⟩ := hp
          obtain ⟨i, hi⟩ := Option.isSome_iff_exists.mp ((formatItem_isSome x []).mpr hx)
          rw [PatternPiece.tokens, hi]
          exact .bare hi hends hrest
      | braced x fmt =>
          obtain ⟨hx, hfmt⟩ := hp
          obtain ⟨i, hi⟩ := Option.isSome_iff_exists.mp ((formatItem_isSome x fmt).mpr hx)
          rw [PatternPiece.tokens, hi, PatternPiece.text]
          have := Reads.braced hi hfmt hrest
          simpa using this

/-- A reading is one by pieces that fit. -/
theorem pieces (h : Reads half t ts) :
    ∃ ps, PatternPiece.Fit half ps ∧ PatternPiece.texts half ps = t ∧
      ps.flatMap PatternPiece.tokens = ts := by
  induction h with
  | nil => exact ⟨[], trivial, rfl, rfl⟩
  | @char c t ts hc _ ih =>
      obtain ⟨ps, hfit, rfl, rfl⟩ := ih
      exact ⟨.literal [c] :: ps, ⟨by simpa [PatternPiece.Fits] using hc.symm, hfit⟩, rfl, rfl⟩
  | @escape t ts hhalf _ ih =>
      obtain ⟨ps, hfit, rfl, rfl⟩ := ih
      subst hhalf
      exact ⟨.escape :: ps, ⟨nofun, hfit⟩, rfl, rfl⟩
  | @sign t ts hhalf _ ih =>
      obtain ⟨ps, hfit, hps, rfl⟩ := ih
      subst hhalf
      refine ⟨.escape :: ps, ⟨fun _ => by rw [hps]; rfl, hfit⟩, ?_, rfl⟩
      rw [PatternPiece.texts_cons, hps]
      rfl
  | @bare x i t ts hi hends _ ih =>
      obtain ⟨ps, hfit, rfl, rfl⟩ := ih
      have hx := (formatItem_isSome x []).mp (by rw [hi]; rfl)
      refine ⟨.bare x :: ps, ⟨⟨hx, hends⟩, hfit⟩, rfl, ?_⟩
      rw [List.flatMap_cons, PatternPiece.tokens, hi]
      rfl
  | @braced x fmt i t ts hi hfmt _ ih =>
      obtain ⟨ps, hfit, rfl, rfl⟩ := ih
      have hx := (formatItem_isSome x fmt).mp (by rw [hi]; rfl)
      refine ⟨.braced x fmt :: ps, ⟨⟨hx, hfmt⟩, hfit⟩, ?_, ?_⟩
      · simp [PatternPiece.text]
      · rw [List.flatMap_cons, PatternPiece.tokens, hi]
        rfl

end Reads

/-! ## The two ways to read an escape -/

theorem signs_cons (n : Nat) (u : Text) :
    List.replicate n '%' ++ '%' :: u = '%' :: (List.replicate n '%' ++ u) := by
  induction n with
  | zero => rfl
  | succ n ih => rw [List.replicate_succ, List.cons_append, ih, List.cons_append]

theorem Reads.not_lone_sign {half : Bool} {ts : List Token} : ¬ Reads half ['%'] ts := by
  intro h
  cases h with
  | char hc _ => exact hc rfl

/-- What stands after a sign, where escapes are read by their first sign. -/
theorem Reads.sign_inv {x : Char} {t : Text} {ts : List Token}
    (h : Reads true ('%' :: x :: t) ts) :
    (x = '%' ∧ ∃ ts', ts = .char '%' :: ts' ∧ Reads true ('%' :: t) ts') ∨
      (x ≠ '%' ∧ ∃ i ts', ts = .item i :: ts') := by
  cases h with
  | char hc _ => exact absurd rfl hc
  | escape hhalf _ => exact absurd hhalf (by decide)
  | sign _ hrest => exact .inl ⟨rfl, _, rfl, hrest⟩
  | bare hi _ _ =>
      obtain ⟨y, hy, hletter⟩ := formatItem_some hi
      cases hy
      exact .inr ⟨(letters_alpha hletter).2.1, _, _, rfl⟩
  | braced hi _ _ =>
      obtain ⟨y, hy, hletter⟩ := formatItem_some hi
      cases hy
      exact .inr ⟨(letters_alpha hletter).2.1, _, _, rfl⟩

/-- The first token of two signs read by the first one. -/
theorem Reads.two_signs {t : Text} {ts : List Token} (h : Reads true ('%' :: '%' :: t) ts) :
    ∃ ts', ts = .char '%' :: ts' ∧ Reads true ('%' :: t) ts' := by
  obtain ⟨_, hts⟩ | ⟨hne, _⟩ := h.sign_inv
  · exact hts
  · exact absurd rfl hne

/-- After an escape the two ways never agree again: the reading by first signs
has a sign left over. -/
theorem Reads.behind {t : Text} {ts : List Token} (h : Reads false t ts) :
    ∀ n : Nat, ¬ Reads true ('%' :: (List.replicate n '%' ++ t)) ts := by
  induction h with
  | nil =>
      rintro (_ | n) h'
      · exact h'.not_lone_sign
      · obtain ⟨ts', hts, _⟩ := h'.two_signs
        cases hts
  | @char c t ts hc _ _ =>
      rintro (_ | n) h'
      · obtain ⟨hx, _⟩ | ⟨_, i, ts', hts⟩ := h'.sign_inv
        · exact hc hx
        · cases hts
      · obtain ⟨ts', hts, _⟩ := h'.two_signs
        cases hts
        exact hc rfl
  | @escape t ts _ _ ih =>
      intro n h'
      rw [signs_cons, signs_cons] at h'
      obtain ⟨ts', hts, hrest⟩ := h'.two_signs
      cases hts
      exact ih (n + 1) hrest
  | sign hhalf _ _ => cases hhalf
  | bare _ _ _ _ =>
      intro n h'
      rw [signs_cons] at h'
      obtain ⟨ts', hts, _⟩ := h'.two_signs
      cases hts
  | braced _ _ _ _ =>
      intro n h'
      rw [signs_cons] at h'
      obtain ⟨ts', hts, _⟩ := h'.two_signs
      cases hts

/-- A text up to its first brace is cut in one way. -/
theorem cut_at_brace {fmt fmt' t t' : Text} (h : '}' ∉ fmt) (h' : '}' ∉ fmt')
    (heq : fmt ++ '}' :: t = fmt' ++ '}' :: t') : fmt = fmt' ∧ t = t' := by
  induction fmt generalizing fmt' with
  | nil =>
      cases fmt' with
      | nil => exact ⟨rfl, (List.cons.inj heq).2⟩
      | cons c fmt' => exact absurd (by rw [(List.cons.inj heq).1]; exact List.mem_cons_self) h'
  | cons c fmt ih =>
      cases fmt' with
      | nil => exact absurd (by rw [← (List.cons.inj heq).1]; exact List.mem_cons_self) h
      | cons c' fmt' =>
          rw [List.mem_cons, not_or] at h h'
          obtain ⟨hc, hrest⟩ := List.cons.inj heq
          obtain ⟨hfmt, ht⟩ := ih h.2 h'.2 hrest
          exact ⟨by rw [hc, hfmt], ht⟩

/-- A text whose readings of both ways have the same tokens has no escape. -/
theorem Reads.no_escape {t : Text} {ts : List Token} (h : Reads false t ts)
    (h' : Reads true t ts) : Token.char '%' ∉ ts := by
  induction h with
  | nil => exact List.not_mem_nil
  | @char c t ts hc _ ih =>
      cases h' with
      | char _ hrest =>
          rw [List.mem_cons, not_or]
          exact ⟨fun heq => hc (Token.char.inj heq).symm, ih hrest⟩
      | escape _ _ => exact absurd rfl hc
      | sign _ _ => exact absurd rfl hc
  | @escape t ts _ hfull _ =>
      obtain ⟨ts', hts, hrest⟩ := h'.two_signs
      cases hts
      exact absurd hrest (hfull.behind 0)
  | sign hhalf _ _ => cases hhalf
  | @bare x i t ts hi hends _ ih =>
      cases h' with
      | bare _ _ hrest =>
          rw [List.mem_cons, not_or]
          exact ⟨nofun, ih hrest⟩
      | braced _ _ _ => exact absurd rfl (hends '{' rfl).2.1
  | @braced x fmt i t ts hi hfmt _ ih =>
      generalize hu : fmt ++ '}' :: t = u at h'
      cases h' with
      | bare _ hends _ => exact absurd rfl (hends '{' rfl).2.1
      | @braced _ fmt' _ t' _ _ hfmt' hrest =>
          obtain ⟨_, rfl⟩ := cut_at_brace hfmt hfmt' hu
          rw [List.mem_cons, not_or]
          exact ⟨nofun, ih hrest⟩

/-! ## What `init` reads -/

/-- A formatter without an error that puts out the tokens. -/
def Yields (vec : List Piece × Bool) (ts : List Token) : Prop :=
  vec.2 = false ∧ (∀ p ∈ vec.1, (LogFormatter.itemOf p).2 = true) ∧
    tokensOf (vec.1.map fun p => (LogFormatter.itemOf p).1) = ts

theorem pieces_skip (k : Nat) (nstr cs : Text) :
    pieces k nstr cs = pieces 0 nstr (cs.drop k) := by
  induction k generalizing cs with
  | zero => rfl
  | succ k ih =>
      cases cs with
      | nil => rfl
      | cons c cs => exact ih cs

theorem yields_flush (nstr : Text) {vec : List Piece × Bool} {ts : List Token}
    (h : Yields vec ts) :
    Yields (flush nstr ++ vec.1, vec.2) (nstr.map Token.char ++ ts) := by
  obtain ⟨herr, hok, htokens⟩ := h
  unfold flush
  split
  · rename_i hnil
    rw [List.isEmpty_iff.mp hnil]
    exact ⟨herr, hok, htokens⟩
  · refine ⟨herr, ?_, ?_⟩
    · intro p hp
      rcases List.mem_cons.mp hp with rfl | hp
      · rfl
      · exact hok p hp
    · simp only [List.cons_append, List.nil_append, List.map_cons, tokensOf, List.flatMap_cons]
      exact congrArg _ htokens

theorem yields_directive {str fmt : Text} {i : FormatItem} (hi : formatItem str fmt = some i)
    {vec : List Piece × Bool} {ts : List Token} (h : Yields vec ts) :
    Yields (⟨str, fmt, true⟩ :: vec.1, vec.2) (.item i :: ts) := by
  obtain ⟨herr, hok, htokens⟩ := h
  have hitem : LogFormatter.itemOf ⟨str, fmt, true⟩ = (i, true) := by
    simp only [LogFormatter.itemOf, if_true, hi]
  refine ⟨herr, ?_, ?_⟩
  · intro p hp
    rcases List.mem_cons.mp hp with rfl | hp
    · rw [hitem]
    · exact hok p hp
  · simp only [List.map_cons, hitem, tokensOf, List.flatMap_cons, tokens_of_formatItem hi]
    exact congrArg _ htokens

theorem braced_closed (str word acc fmt t : Text) (hfmt : '}' ∉ fmt) :
    braced str word acc (fmt ++ '}' :: t) =
      { str, fmt := acc ++ fmt, used := word.length + fmt.length + 1, closed := true } := by
  induction fmt generalizing word acc with
  | nil => simp [braced]
  | cons c fmt ih =>
      rw [List.mem_cons, not_or] at hfmt
      rw [List.cons_append, braced, if_neg (Ne.symm hfmt.1), ih _ _ hfmt.2]
      simp
      omega

/-- The inner loop goes on over what may stand in a word. -/
theorem directive_word {word : Text} {c : Char} (t : Text)
    (hc : (!c.isAlpha && c != '{' && c != '}') = false) (hbrace : c ≠ '{') :
    directive word (c :: t) = directive (word ++ [c]) t := by
  cases t with
  | nil => rw [directive.eq_2, hc, if_neg Bool.false_ne_true, if_neg hbrace]
  | cons c' t => rw [directive, hc, if_neg Bool.false_ne_true, if_neg hbrace]

theorem directive_ends {word : Text} {t : Text} (hends : EndsWord t) :
    directive word t = { str := word, fmt := [], used := word.length, closed := true } := by
  cases t with
  | nil => rw [directive]
  | cons c t =>
      obtain ⟨hc, hopen, hclose⟩ := hends c rfl
      have hstop : (!c.isAlpha && c != '{' && c != '}') = true := by simp [hc, hopen, hclose]
      cases t with
      | nil => rw [directive, if_pos hstop]
      | cons c' t => rw [directive, if_pos hstop]

/-- The inner loop at an opening brace that something follows. -/
theorem directive_open (word : Text) {t : Text} (ht : t ≠ []) :
    directive word ('{' :: t) = braced word (word ++ ['{']) [] t := by
  cases t with
  | nil => exact absurd rfl ht
  | cons c t =>
      rw [directive, if_neg (by decide), if_pos rfl]

theorem word_of_letter {x : Char} (hx : x ∈ letters) :
    (!x.isAlpha && x != '{' && x != '}') = false ∧ x ≠ '{' := by
  obtain ⟨halpha, _, hbrace⟩ := letters_alpha hx
  exact ⟨by rw [halpha]; rfl, hbrace⟩

/-- The inner loop at a bare directive. -/
theorem directive_bare {x : Char} {t : Text} (hx : x ∈ letters) (hends : EndsWord t) :
    directive [] (x :: t) = { str := [x], fmt := [], used := 1, closed := true } := by
  obtain ⟨hword, hbrace⟩ := word_of_letter hx
  rw [directive_word t hword hbrace, directive_ends hends]
  rfl

/-- The inner loop at a directive with a format. -/
theorem directive_braced {x : Char} {fmt : Text} (t : Text) (hx : x ∈ letters)
    (hfmt : '}' ∉ fmt) :
    directive [] (x :: '{' :: (fmt ++ '}' :: t)) =
      { str := [x], fmt, used := fmt.length + 3, closed := true } := by
  obtain ⟨hword, hbrace⟩ := word_of_letter hx
  rw [directive_word _ hword hbrace, directive_open _ (by simp), braced_closed _ _ _ _ _ hfmt]
  simp
  omega

/-- A text with a reading by first signs is accepted, with its tokens. -/
theorem pieces_of_reads {t : Text} {ts : List Token} (h : Reads true t ts) :
    ∀ nstr, Yields (pieces 0 nstr t) (nstr.map Token.char ++ ts) := by
  induction h with
  | nil =>
      intro nstr
      have hnil : Yields ([], false) [] := ⟨rfl, nofun, rfl⟩
      have := yields_flush nstr hnil
      simpa [pieces] using this
  | @char c t ts hc _ ih =>
      intro nstr
      rw [pieces, if_pos hc]
      have := ih (nstr ++ [c])
      simpa using this
  | escape hhalf _ _ => cases hhalf
  | @sign t ts _ _ ih =>
      intro nstr
      rw [pieces, if_neg (by decide), List.head?_cons, if_pos rfl]
      have := ih (nstr ++ ['%'])
      simpa using this
  | @bare x i t ts hi hends _ ih =>
      intro nstr
      obtain ⟨y, hy, hletter⟩ := formatItem_some hi
      cases hy
      have hsign : ¬ some x = some '%' := fun h => (letters_alpha hletter).2.1 (Option.some.inj h)
      rw [pieces, if_neg (by decide), List.head?_cons, if_neg hsign,
        directive_bare hletter hends]
      simp only [if_true, pieces_skip 1, List.drop_one, List.tail_cons]
      exact yields_flush nstr (yields_directive hi (by simpa using ih []))
  | @braced x fmt i t ts hi hfmt _ ih =>
      intro nstr
      obtain ⟨y, hy, hletter⟩ := formatItem_some hi
      cases hy
      have hdrop : (x :: '{' :: (fmt ++ '}' :: t)).drop (fmt.length + 3) = t := by
        have : x :: '{' :: (fmt ++ '}' :: t) = (x :: '{' :: (fmt ++ ['}'])) ++ t := by simp
        rw [this, List.drop_left' (by simp)]
      have hsign : ¬ some x = some '%' := fun h => (letters_alpha hletter).2.1 (Option.some.inj h)
      rw [pieces, if_neg (by decide), List.head?_cons, if_neg hsign,
        directive_braced t hletter hfmt]
      simp only [if_true, pieces_skip (fmt.length + 3), hdrop]
      exact yields_flush nstr (yields_directive hi (by simpa using ih []))

/-- Where the inner loop closes a brace. -/
theorem braced_inv (str word acc t : Text) (h : (braced str word acc t).closed = true) :
    ∃ fmt rest, t = fmt ++ '}' :: rest ∧ '}' ∉ fmt ∧
      braced str word acc t =
        { str, fmt := acc ++ fmt, used := word.length + fmt.length + 1, closed := true } := by
  induction t generalizing word acc with
  | nil => cases h
  | cons c t ih =>
      rw [braced] at h
      by_cases hc : c = '}'
      · subst hc
        exact ⟨[], t, rfl, List.not_mem_nil, braced_closed str word acc [] t List.not_mem_nil⟩
      · rw [if_neg hc] at h
        obtain ⟨fmt, rest, rfl, hfmt, _⟩ := ih _ _ h
        have hmem : '}' ∉ c :: fmt := by
          rw [List.mem_cons, not_or]
          exact ⟨Ne.symm hc, hfmt⟩
        exact ⟨c :: fmt, rest, rfl, hmem, braced_closed str word acc (c :: fmt) rest hmem⟩

/-- What the inner loop read where it ends well: a word, and a format or none. -/
theorem directive_inv (word t : Text) (h : (directive word t).closed = true) :
    ∃ w, (directive word t).str = word ++ w ∧
      ((∃ rest, t = w ++ rest ∧ EndsWord rest ∧ (directive word t).fmt = [] ∧
          (directive word t).used = word.length + w.length) ∨
        ∃ fmt rest, t = w ++ '{' :: (fmt ++ '}' :: rest) ∧ '}' ∉ fmt ∧
          (directive word t).fmt = fmt ∧
          (directive word t).used = word.length + w.length + fmt.length + 2) := by
  induction t generalizing word with
  | nil => exact ⟨[], by simp [directive], .inl ⟨[], rfl, nofun, rfl, rfl⟩⟩
  | cons c t ih =>
      by_cases hstop : (!c.isAlpha && c != '{' && c != '}') = true
      · have hends : EndsWord (c :: t) := by
          rintro d ⟨⟩
          simpa [and_assoc] using hstop
        rw [directive_ends hends]
        exact ⟨[], by simp, .inl ⟨c :: t, rfl, hends, rfl, rfl⟩⟩
      · by_cases hbrace : c = '{'
        · subst hbrace
          cases t with
          | nil => cases h
          | cons d t =>
              rw [directive_open word (by simp)] at h ⊢
              obtain ⟨fmt, rest, ht, hfmt, heq⟩ := braced_inv _ _ _ _ h
              rw [heq]
              exact ⟨[], by simp, .inr ⟨fmt, rest, by rw [ht]; rfl, hfmt, rfl, by simp; omega⟩⟩
        · rw [directive_word t (by simpa using hstop) hbrace] at h ⊢
          obtain ⟨w, hstr, hend⟩ := ih _ h
          refine ⟨c :: w, by rw [hstr]; simp, ?_⟩
          rcases hend with ⟨rest, ht, hends, hfmt, hused⟩ | ⟨fmt, rest, ht, hmem, hfmt, hused⟩
          · refine .inl ⟨rest, by rw [ht]; rfl, hends, hfmt, ?_⟩
            rw [hused, List.length_append, List.length_cons, List.length_nil, List.length_cons]
            omega
          · refine .inr ⟨fmt, rest, by rw [ht]; rfl, hmem, hfmt, ?_⟩
            rw [hused, List.length_append, List.length_cons, List.length_nil, List.length_cons]
            omega

/-- No piece was refused. -/
def Accepted (vec : List Piece × Bool) : Prop :=
  vec.2 = false ∧ ∀ p ∈ vec.1, (LogFormatter.itemOf p).2 = true

theorem itemOf_ok {str fmt : Text} (h : (LogFormatter.itemOf ⟨str, fmt, true⟩).2 = true) :
    ∃ i, formatItem str fmt = some i := by
  rw [LogFormatter.itemOf, if_pos rfl] at h
  split at h
  · exact ⟨_, by assumption⟩
  · cases h

/-- A directive that ends well, with an item of its own, is read. -/
theorem reads_of_directive {t : Text} {ts : List Token} {i : FormatItem}
    (hclosed : (directive [] t).closed = true)
    (hi : formatItem (directive [] t).str (directive [] t).fmt = some i)
    (h : Reads true (t.drop (directive [] t).used) ts) :
    Reads true ('%' :: t) (.item i :: ts) := by
  obtain ⟨w, hstr, hend⟩ := directive_inv [] t hclosed
  obtain ⟨x, hx, _⟩ := formatItem_some hi
  have hw : w = [x] := by rw [← hx, hstr]; rfl
  subst hw
  rw [hx] at hi
  rcases hend with ⟨rest, ht, hends, hfmt, hused⟩ | ⟨fmt, rest, ht, hmem, hfmt, hused⟩
  · have hdrop : t.drop (directive [] t).used = rest := by
      rw [hused, ht]
      rfl
    rw [hdrop] at h
    rw [hfmt] at hi
    rw [ht]
    exact .bare hi hends h
  · have hdrop : t.drop (directive [] t).used = rest := by
      have hsplit : t = (x :: '{' :: (fmt ++ ['}'])) ++ rest := by rw [ht]; simp
      rw [hused, hsplit, List.drop_left' (by simp; omega)]
    rw [hdrop] at h
    rw [hfmt] at hi
    rw [ht]
    exact .braced hi hmem h

/-- A text that is accepted has a reading by first signs. -/
theorem reads_of_accepted :
    ∀ (n : Nat) (t nstr : Text), t.length ≤ n → Accepted (pieces 0 nstr t) →
      ∃ ts, Reads true t ts := by
  intro n
  induction n with
  | zero =>
      intro t nstr hn _
      rw [List.length_eq_zero_iff.mp (Nat.le_zero.mp hn)]
      exact ⟨[], .nil⟩
  | succ n ih =>
      intro t nstr hn h
      cases t with
      | nil => exact ⟨[], .nil⟩
      | cons c t =>
          have hlen : t.length ≤ n := Nat.le_of_succ_le_succ hn
          rw [pieces] at h
          by_cases hc : c = '%'
          · subst hc
            rw [if_neg (by decide)] at h
            by_cases hsign : t.head? = some '%'
            · rw [if_pos hsign] at h
              obtain ⟨t', rfl⟩ := List.head?_eq_some_iff.mp hsign
              obtain ⟨ts, hts⟩ := ih _ _ hlen h
              exact ⟨_, .sign rfl hts⟩
            · rw [if_neg hsign] at h
              by_cases hclosed : (directive [] t).closed = true
              · simp only [hclosed, if_true, pieces_skip (directive [] t).used] at h
                obtain ⟨herr, hok⟩ := h
                have hd : ⟨(directive [] t).str, (directive [] t).fmt, true⟩ ∈ flush nstr ++
                    ⟨(directive [] t).str, (directive [] t).fmt, true⟩ ::
                      (pieces 0 [] (t.drop (directive [] t).used)).1 :=
                  List.mem_append_right _ List.mem_cons_self
                obtain ⟨i, hi⟩ := itemOf_ok (hok _ hd)
                have hrest : Accepted (pieces 0 [] (t.drop (directive [] t).used)) :=
                  ⟨herr, fun p hp =>
                    hok p (List.mem_append_right _ (List.mem_cons_of_mem _ hp))⟩
                have hdrop : (t.drop (directive [] t).used).length ≤ n := by
                  rw [List.length_drop]
                  omega
                obtain ⟨ts, hts⟩ := ih _ _ hdrop hrest
                exact ⟨_, reads_of_directive hclosed hi hts⟩
              · simp only [hclosed] at h
                exact absurd h.1 (by simp)
          · rw [if_pos hc] at h
            obtain ⟨ts, hts⟩ := ih _ _ hlen h
            exact ⟨_, .char hc hts⟩

namespace LogFormatter

theorem isError_iff (t : Text) :
    (create t).isError = false ↔ Accepted (CoLib.Log.pieces 0 [] t) := by
  rw [Accepted, isError, create]
  simp only [Bool.or_eq_false_iff, List.any_eq_false, Bool.not_eq_true', Bool.not_eq_false]

/-- A text with a reading by first signs is rendered by it, without an error. -/
theorem create_of_reads {t : Text} {ts : List Token} (h : Reads true t ts) :
    (create t).isError = false ∧ tokensOf (create t).items = ts := by
  obtain ⟨herr, hok, htokens⟩ := pieces_of_reads h []
  exact ⟨(isError_iff t).mpr ⟨herr, hok⟩, htokens⟩

/-- `init` accepts the texts with a reading by first signs. -/
theorem create_isError_iff (t : Text) :
    (create t).isError = false ↔ ∃ ts, Reads true t ts := by
  constructor
  · intro h
    exact reads_of_accepted t.length t [] le_rfl ((isError_iff t).mp h)
  · rintro ⟨ts, h⟩
    exact (create_of_reads h).1

end LogFormatter

namespace PatternPiece

/-- Pieces that fit put out a `%` where they have an escape. -/
theorem escape_mem_iff {half : Bool} {ps : List PatternPiece} (h : Fit half ps) :
    escape ∈ ps ↔ Token.char '%' ∈ ps.flatMap tokens := by
  induction ps with
  | nil => simp
  | cons p ps ih =>
      obtain ⟨hp, hps⟩ := h
      rw [List.mem_cons, List.flatMap_cons, List.mem_append, ih hps]
      refine or_congr ?_ Iff.rfl
      cases p with
      | literal str =>
          refine iff_of_false nofun ?_
          intro hmem
          obtain ⟨c, hc, heq⟩ := List.mem_map.mp hmem
          exact hp (Token.char.inj heq ▸ hc)
      | escape => exact iff_of_true rfl List.mem_cons_self
      | bare x => exact iff_of_false nofun (by simp [tokens])
      | braced x fmt => exact iff_of_false nofun (by simp [tokens])

/-- Without an escape both ways read the same. -/
theorem fit_either {half : Bool} {ps : List PatternPiece} (h : escape ∉ ps)
    (hfit : Fit half ps) (half' : Bool) : Fit half' ps ∧ texts half' ps = texts half ps := by
  induction ps with
  | nil => exact ⟨trivial, rfl⟩
  | cons p ps ih =>
      obtain ⟨hp, hps⟩ := hfit
      rw [List.mem_cons, not_or] at h
      obtain ⟨hfit', htexts⟩ := ih h.2 hps
      have htext : p.Fits half' (texts half' ps) ∧ p.text half' = p.text half := by
        rw [htexts]
        cases p with
        | literal str => exact ⟨hp, rfl⟩
        | escape => exact absurd rfl h.1
        | bare x => exact ⟨hp, rfl⟩
        | braced x fmt => exact ⟨hp, rfl⟩
      exact ⟨⟨htext.1, hfit'⟩, by rw [texts_cons, texts_cons, htext.2, htexts]⟩

end PatternPiece

/-! ## Where `init` meets the language -/

namespace LogFormatter

open PatternPiece

/-- Pieces without an escape are rendered as they stand. -/
theorem create_of_fit {ps : List PatternPiece} (hfit : Fit false ps) (hesc : escape ∉ ps) :
    (create (texts false ps)).isError = false ∧
      tokensOf (create (texts false ps)).items = ps.flatMap tokens := by
  obtain ⟨hfit', htexts⟩ := fit_either hesc hfit true
  rw [← htexts]
  exact create_of_reads (Reads.of_fit hfit')

/-- `init` meets the language on the texts that no reading of either way finds an
escape in. -/
theorem meets_iff (t : Text) :
    Meets t ↔ ∀ (half : Bool) (ps : List PatternPiece),
      Fit half ps → texts half ps = t → escape ∉ ps := by
  constructor
  · rintro ⟨hgood, hbad⟩ half ps hfit rfl hesc
    cases half with
    | false =>
        -- both ways read the text, and put out the same
        obtain ⟨herr, htokens⟩ := hgood ps hfit rfl
        obtain ⟨ts, hts⟩ := (create_isError_iff _).mp herr
        have hsame : ts = ps.flatMap tokens := (create_of_reads hts).2.symm.trans htokens
        rw [hsame] at hts
        exact (Reads.of_fit hfit).no_escape hts ((escape_mem_iff hfit).mp hesc)
    | true =>
        obtain ⟨herr, htokens⟩ := create_of_reads (Reads.of_fit hfit)
        by_cases hin : ∃ ps', Fit false ps' ∧ texts false ps' = texts true ps
        · obtain ⟨ps', hfit', htext⟩ := hin
          have hsame : ps.flatMap tokens = ps'.flatMap tokens :=
            htokens.symm.trans (hgood ps' hfit' htext).2
          have hread : Reads true (texts false ps') (ps'.flatMap tokens) := by
            rw [htext, ← hsame]
            exact Reads.of_fit hfit
          refine (Reads.of_fit hfit').no_escape hread ?_
          rw [← hsame]
          exact (escape_mem_iff hfit).mp hesc
        · exact absurd (hbad hin) (by rw [herr]; exact Bool.false_ne_true)
  · intro hnone
    refine ⟨?_, ?_⟩
    · rintro ps hfit rfl
      exact create_of_fit hfit (hnone false ps hfit rfl)
    · intro hout
      by_contra herr
      rw [Bool.not_eq_true] at herr
      obtain ⟨ts, hts⟩ := (create_isError_iff t).mp herr
      obtain ⟨ps, hfit, rfl, _⟩ := hts.pieces
      obtain ⟨hfit', htexts⟩ := fit_either (hnone true ps hfit rfl) hfit false
      exact hout ⟨ps, hfit', htexts⟩

/-- The escape at the end: the second sign is a directive without a letter. -/
theorem not_meets_escape : ¬ Meets "%%".toList := by
  intro h
  have herr := (h.1 [.escape] ⟨nofun, trivial⟩ rfl).1
  exact absurd herr (by decide)

end LogFormatter

end CoLib.Log
