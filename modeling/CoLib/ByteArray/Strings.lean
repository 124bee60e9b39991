/-
# `CoLib.ByteArray.Strings` — strings written and read back

The string-returning `read` copies to a buffer of `size + 1` bytes that it has not
initialised, and returns `std::string(buf.get(), 0, size)`.  There is no constructor of
a string from a pointer, a position and a length: the pointer is converted to a string
first, which takes the bytes up to a NUL, and the constructor takes a part of that.  So
a NUL among the bytes cuts the string off, and a byte other than NUL behind them adds to
it, or lets the conversion run out of the buffer.

**Proved here.** `writeString_readString_iff`: for every reachable buffer, when a string
that is written and a count that is read give the bytes that were asked for.
-/
import CoLib.ByteArray.Counts

namespace CoLib.ByteArray

open Lib Heap

/-! ## Strings from memory -/

section Memory

variable {a rest str : List UInt8} {n : Nat}

theorem cString_terminated (h : 0 ∉ a) : cString (a ++ 0 :: rest) = some a := by
  have hall : ∀ c ∈ a, (decide (c ≠ 0)) = true := by
    intro c hc
    exact decide_eq_true fun hzero => h (hzero ▸ hc)
  rw [cString, if_pos (List.mem_append_right a List.mem_cons_self),
    List.takeWhile_append_of_pos hall]
  simp

/-- No NUL is in the string of a pointer. -/
theorem zero_not_mem_cString {memory : List UInt8} (h : cString memory = some str) : 0 ∉ str := by
  rw [cString] at h
  split at h
  · obtain rfl := Option.some.inj h
    intro hmem
    have hne := List.all_eq_true.mp (List.all_takeWhile) _ hmem
    exact absurd rfl (of_decide_eq_true hne)
  · cases h

/-- The first `n` bytes of the string are the ones copied exactly if these are without a
NUL and the next one is a NUL. -/
theorem cString_take_iff (hlen : a.length ≤ n) (hrest : a.length = n → rest.length ≤ 1) :
    (∃ str, cString (a ++ rest) = some str ∧ str.take n = a) ↔ 0 ∉ a ∧ rest.head? = some 0 := by
  constructor
  · rintro ⟨str, hstr, htake⟩
    have hnul : 0 ∉ a := by
      rw [← htake]
      exact fun hmem => zero_not_mem_cString hstr (List.mem_of_mem_take hmem)
    have hall : ∀ c ∈ a, (decide (c ≠ 0)) = true := by
      intro c hc
      exact decide_eq_true fun hzero => hnul (hzero ▸ hc)
    refine ⟨hnul, ?_⟩
    rw [cString] at hstr
    split at hstr
    · rename_i hmem
      have hin : 0 ∈ rest := (List.mem_append.mp hmem).resolve_left hnul
      obtain ⟨c, rest', rfl⟩ := List.exists_cons_of_ne_nil (List.ne_nil_of_mem hin)
      by_cases hc : c = 0
      · rw [hc]
        rfl
      · -- the byte behind belongs to the string, unless it is cut off
        exfalso
        obtain rfl := Option.some.inj hstr
        have hpass : (decide (c ≠ 0)) = true := decide_eq_true hc
        rw [List.takeWhile_append_of_pos hall, List.takeWhile_cons, if_pos hpass] at htake
        have hlength := congrArg List.length htake
        rw [List.length_take, List.length_append, List.length_cons] at hlength
        have hone := hrest (by omega)
        rw [List.length_cons] at hone
        obtain rfl : rest' = [] := List.eq_nil_of_length_eq_zero (by omega)
        exact hc (List.mem_singleton.mp hin).symm
    · cases hstr
  · rintro ⟨hnul, hhead⟩
    obtain ⟨rest', rfl⟩ := List.head?_eq_some_iff.mp hhead
    exact ⟨a, cString_terminated hnul, List.take_of_length_le hlen⟩

end Memory

/-! ## Writing and reading -/

/-- After `write(str)` the unread bytes are those there were, and the string; `read(n)`
then returns the oldest `n` of them, or all, and leaves the others. -/
def ReadsBack (garbage : Nat → UInt8) (s : ByteArray) (q str : List UInt8) (n : Nat) : Prop :=
  ∃ s₁ w s₂, s.writeString str = some (s₁, w) ∧ unread s₁ = some (q ++ str) ∧
    s₁.readString garbage n = some (s₂, (q ++ str).take n) ∧
    unread s₂ = some ((q ++ str).drop n)

/-- Of the unread bytes `q` the oldest `n` can be read as a string. -/
structure Readable (garbage : Nat → UInt8) (q : List UInt8) (n : Nat) : Prop where
  /-- The count survives its conversion. -/
  kept : ReadKept q.length n
  /-- The buffer can be allocated. -/
  allocated : addWord n 1 ≤ ptrdiffMax
  /-- It has room for one byte more. -/
  room : min n q.length < addWord n 1
  /-- There is no NUL among the bytes. -/
  nul : 0 ∉ q.take n
  /-- There is one behind them, where nothing has been copied. -/
  terminated : garbage (min n q.length) = 0

section Strings

variable {s : ByteArray} {front back : List Addr} {n : Nat}

theorem Rep.writeString_eq (h : Rep s front back) (str : List UInt8) :
    ∃ s' front' back', s.writeString str = some (s', (toInt str.length).toNat) ∧
      Rep s' front' back' ∧
      window s' (front' ++ back') =
        window s (front ++ back) ++ str.take (toInt str.length).toNat := by
  obtain ⟨hle, hlow⟩ := toInt_le str.length
  rcases Int.lt_or_le (toInt str.length) 0 with hneg | hpos
  · -- nothing is written, after the growth
    have hzero : (toInt str.length).toNat = 0 := Int.toNat_of_nonpos hneg.le
    have hbuf : ∀ bs, some str = some bs → (toInt str.length).toNat ≤ bs.length :=
      fun bs hbs => Option.some.inj hbs ▸ hlow
    obtain ⟨s₁, s', hgrow, hwrite, -, hsame, -⟩ := h.write_eq hle hbuf
    obtain rfl := hsame hneg.le
    obtain ⟨s₂, extra, hgrow₂, hrep, -, -, hwin⟩ :=
      updateCapacity_spec h (toSizeT (toInt str.length))
    obtain rfl := Option.some.inj (hgrow.symm.trans hgrow₂)
    refine ⟨s', front, back ++ extra, hwrite, hrep, ?_⟩
    rw [hwin, hzero, List.take_zero, List.append_nil]
  · obtain ⟨k, hk⟩ := Int.eq_ofNat_of_zero_le hpos
    rw [writeString, hk, Int.toNat_natCast]
    exact write_spec h (by omega) (by omega)

theorem head?_garbage (garbage : Nat → UInt8) (r len : Nat) :
    ((List.range' r (len - r)).map garbage).head? = some 0 ↔ r < len ∧ garbage r = 0 := by
  cases hm : len - r with
  | zero => exact iff_of_false (fun h => by cases h) fun h => by omega
  | succ m =>
      rw [List.range'_succ, List.map_cons, List.head?_cons, Option.some.injEq,
        and_iff_right (by omega)]

theorem readString_of_chars {s' : ByteArray} {garbage : Nat → UInt8} {memory : List UInt8}
    (h : s.readChars garbage n = some (s', memory)) :
    s.readString garbage n = (cString memory).map fun str => (s', str.take n) := by
  rw [readString, h]
  cases hstr : cString memory with
  | none => simp [hstr]
  | some str => simp [hstr]

theorem Rep.readString_iff (h : Rep s front back) (garbage : Nat → UInt8) (n : Nat) :
    (∃ s', s.readString garbage n = some (s', (window s (front ++ back)).take n) ∧
      unread s' = some ((window s (front ++ back)).drop n)) ↔
      Readable garbage (window s (front ++ back)) n := by
  obtain ⟨s', front', back', hread, -, hrep', hwin'⟩ := h.readChars_eq garbage n
  have hle := readSize_le (s := s) (toInt_le n).1
  have hkept := readSize_toInt_iff (s := s) (n := n)
  have hlen := h.length_window
  rw [← hlen] at hkept hle
  generalize window s (front ++ back) = q at *
  generalize readSize s (toInt n) = r at *
  have htaken : (q.take r).length = r := by rw [List.length_take, min_eq_left hle]
  have hbound : addWord n 1 ≤ n + 1 := Nat.mod_le _ _
  have hshort : (q.take r).length = n →
      ((List.range' r (addWord n 1 - r)).map garbage).length ≤ 1 := by
    rw [htaken, List.length_map, List.length_range']
    omega
  constructor
  · rintro ⟨s₂, hstring, hunread⟩
    split at hread
    · rename_i hfit
      rw [readString_of_chars hread] at hstring
      obtain ⟨str, hstr, heq⟩ := Option.map_eq_some_iff.mp hstring
      obtain ⟨rfl, htake⟩ := Prod.mk.inj heq
      -- what is left tells how many bytes were consumed
      rw [hrep'.unread_eq, hwin'] at hunread
      have hleft := congrArg List.length (Option.some.inj hunread)
      rw [List.length_drop, List.length_drop] at hleft
      have hr : r = min n q.length := by omega
      have hsame : q.take r = q.take n := by rw [hr, ← List.take_eq_take_min]
      rw [← hsame] at htake
      obtain ⟨hnul, hhead⟩ := (cString_take_iff (by omega) hshort).mp ⟨str, hstr, htake⟩
      obtain ⟨hroom, hzero⟩ := (head?_garbage garbage r (addWord n 1)).mp hhead
      exact ⟨hkept.mp hr, hfit.allocated, hr ▸ hroom, hsame ▸ hnul, hr ▸ hzero⟩
    · rw [readString, hread] at hstring
      cases hstring
  · rintro ⟨hreadKept, halloc, hroom, hnul, hzero⟩
    have hr : r = min n q.length := hkept.mpr hreadKept
    have hsame : q.take r = q.take n := by rw [hr, ← List.take_eq_take_min]
    obtain ⟨str, hstr, htake⟩ := (cString_take_iff (by omega) hshort).mpr
      ⟨hsame ▸ hnul, (head?_garbage garbage r (addWord n 1)).mpr ⟨hr ▸ hroom, hr ▸ hzero⟩⟩
    refine ⟨s', ?_, ?_⟩
    · rw [if_pos ⟨halloc, by omega⟩] at hread
      rw [readString_of_chars hread, hstr, Option.map_some, htake, hsame]
    · rw [hrep'.unread_eq, hwin', hr, ← List.drop_eq_drop_min]

theorem Rep.readsBack_iff (h : Rep s front back) (garbage : Nat → UInt8) (str : List UInt8)
    (n : Nat) :
    ReadsBack garbage s (window s (front ++ back)) str n ↔
      str.length ≤ intMax ∧ Readable garbage (window s (front ++ back) ++ str) n := by
  obtain ⟨s₁, front', back', hwrite, hrep, hwin⟩ := h.writeString_eq str
  have hreadable := hrep.readString_iff garbage n
  constructor
  · rintro ⟨s₁', w, s₂, hw, hunread₁, hread, hunread₂⟩
    obtain ⟨rfl, rfl⟩ := Prod.mk.inj (Option.some.inj (hwrite.symm.trans hw))
    rw [hrep.unread_eq] at hunread₁
    have hall := Option.some.inj hunread₁
    rw [hall] at hreadable
    refine ⟨?_, hreadable.mp ⟨s₂, hread, hunread₂⟩⟩
    -- the string has been written to its end
    rw [hwin, List.append_cancel_left_eq] at hall
    have hlen := congrArg List.length hall
    rw [List.length_take] at hlen
    have hle := (toInt_le str.length).1
    omega
  · rintro ⟨hlen, hreads⟩
    have hall : window s₁ (front' ++ back') = window s (front ++ back) ++ str := by
      rw [hwin, toInt_ofNat hlen, Int.toNat_natCast, List.take_length]
    rw [hall] at hreadable
    obtain ⟨s₂, hread, hunread⟩ := hreadable.mpr hreads
    exact ⟨s₁, _, s₂, hwrite, by rw [hrep.unread_eq, hall], hread, hunread⟩

/-- For every reachable buffer, string and count, and whatever the memory of the buffer
of `read` held: the bytes are read back exactly if the string's length is an `int`, the
count survives its conversion and can be allocated for, there is no NUL among the bytes,
and there is one in the memory behind them.  For no string and count this is so whatever
the memory held. -/
theorem writeString_readString_iff (h : Reachable s) :
    ∃ q, unread s = some q ∧ ∀ (str : List UInt8) (n : Nat),
      (∀ garbage, ReadsBack garbage s q str n ↔
        str.length ≤ intMax ∧ Readable garbage (q ++ str) n) ∧
      ¬∀ garbage, ReadsBack garbage s q str n := by
  obtain ⟨front, back, hrep⟩ := h.rep
  refine ⟨window s (front ++ back), hrep.unread_eq, fun str n => ⟨fun garbage => ?_, ?_⟩⟩
  · exact hrep.readsBack_iff garbage str n
  · intro hall
    have hreads := (hrep.readsBack_iff (fun _ => 1) str n).mp (hall _)
    exact absurd hreads.2.terminated (by decide)

/-- Two more bytes, of which one is read with the three there were. -/
theorem writeString_readString_iff_four :
    ∃ s, Reachable s ∧
      ReadsBack (fun i => if i = 4 then 0 else 255) s [1, 2, 3] [97, 98] 4 := by
  obtain ⟨s, hreach, -, hunread⟩ := reachable_three
  obtain ⟨q, hq, hall⟩ := writeString_readString_iff hreach
  obtain rfl := Option.some.inj (hunread.symm.trans hq)
  refine ⟨s, hreach, ((hall [97, 98] 4).1 _).mpr ⟨by decide, .inl (by decide), ?_, ?_, ?_, ?_⟩⟩ <;>
    decide

/-- A string with a NUL comes back cut off, although the memory was zeroed. -/
theorem readString_cut :
    ∃ s, create (fun _ _ => 0) 4 0 = some s ∧ unread s = some [] ∧
      (∃ s₁, s.writeString [97, 0, 98] = some (s₁, 3) ∧ unread s₁ = some [97, 0, 98] ∧
        (s₁.readString (fun _ => 0) 3).map Prod.snd = some [97]) ∧
      ¬ReadsBack (fun _ => 0) s [] [97, 0, 98] 3 := by
  have h : (create (fun _ _ => 0) 4 0).any (fun s => decide (unread s = some []) &&
      (s.writeString [97, 0, 98]).any fun w => decide (w.2 = 3 ∧ unread w.1 = some [97, 0, 98] ∧
        (w.1.readString (fun _ => 0) 3).map Prod.snd = some [97])) = true := by decide +kernel
  obtain ⟨s, hcreate, hs⟩ := Option.any_eq_true _ _ |>.mp h
  obtain ⟨hunread, hwrite⟩ := (Bool.and_eq_true _ _).mp hs
  obtain ⟨⟨s₁, w⟩, hw, hvalues⟩ := Option.any_eq_true _ _ |>.mp hwrite
  obtain ⟨rfl, hall, hread⟩ := of_decide_eq_true hvalues
  refine ⟨s, hcreate, of_decide_eq_true hunread, ⟨s₁, hw, hall, hread⟩, ?_⟩
  rintro ⟨s₂, w, s₃, hw₂, -, hread₂, -⟩
  obtain ⟨rfl, -⟩ := Prod.mk.inj (Option.some.inj (hw.symm.trans hw₂))
  rw [hread₂] at hread
  have hsame : ([97, 0, 98] : List UInt8) = [97] := Option.some.inj hread
  cases hsame

end Strings

end CoLib.ByteArray
