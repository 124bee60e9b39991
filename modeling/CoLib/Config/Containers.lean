/-
# `CoLib.Config.Containers` — the texts of the containers

`LexicalCast` writes a container as a YAML tree, and reads it back.  Between the two an
element goes from its own text to a node (`YAML::Load`), with the tree to the other text, and
from the node to a text again (`ss << node[i]`), at every level.  A key of a map is used as it
is.

**Proved here.**  What this leaves of a container is what `mapM` makes of its elements
(`back`); a text that a node is printed as survives, so a container inside a container does.
`roundTrip_iff`: a value comes back exactly if each string in it, be it an element or the
value of a key, is a text that is printed again for the node it loads as.  The empty string is
none (`not_reprints_nil`).
-/
import CoLib.Lib.Traverse
import CoLib.Log.Codec
import Mathlib

namespace CoLib.Config

/-! ## Numbers -/

/-- `boost::lexical_cast<std::string>` of an `int`. -/
def intText (i : Int32) : Text :=
  if i.toInt < 0 then '-' :: Nat.toDigits 10 i.toInt.natAbs
  else Nat.toDigits 10 i.toInt.natAbs

/-- The value of a sequence of digits. -/
def digits (v : Text) : Option Nat :=
  if v ≠ [] ∧ v.all Char.isDigit then some (Nat.ofDigitChars 10 v 0) else none

/-- `boost::lexical_cast<int>`: digits, with a sign or without one, whose value is an `int`;
`none` for `bad_lexical_cast`. -/
def lexicalInt : Text → Option Int32
  | '-' :: v => (digits v).bind fun n => if n ≤ 2 ^ 31 then some (.ofInt (-n)) else none
  | '+' :: v => (digits v).bind fun n => if n < 2 ^ 31 then some (.ofInt n) else none
  | v => (digits v).bind fun n => if n < 2 ^ 31 then some (.ofInt n) else none

theorem digits_toDigits (n : Nat) : digits (Nat.toDigits 10 n) = some n := by
  have hall : (Nat.toDigits 10 n).all Char.isDigit = true :=
    List.all_eq_true.mpr fun c hc => Nat.isDigit_of_mem_toDigits (by decide) (by decide) hc
  rw [digits, if_pos ⟨Nat.toDigits_ne_nil, hall⟩, Nat.ofDigitChars_ten_toDigits]

/-- A number comes back from its text. -/
theorem lexicalInt_intText (i : Int32) : lexicalInt (intText i) = some i := by
  have hlow := Int32.le_toInt i
  have hhigh := Int32.toInt_lt i
  rw [intText]
  split
  · rename_i hneg
    have hle : i.toInt.natAbs ≤ 2 ^ 31 := by omega
    have hback : -(i.toInt.natAbs : Int) = i.toInt := by omega
    simp only [lexicalInt, digits_toDigits, Option.bind_some, if_pos hle, hback, Int32.ofInt_toInt]
  · rename_i hpos
    have hlt : i.toInt.natAbs < 2 ^ 31 := by omega
    have hback : (i.toInt.natAbs : Int) = i.toInt := by omega
    have hdigit : ∀ c ∈ Nat.toDigits 10 i.toInt.natAbs, c.isDigit = true := fun c hc =>
      Nat.isDigit_of_mem_toDigits (by decide) (by decide) hc
    rw [lexicalInt]
    · rw [digits_toDigits, Option.bind_some, if_pos hlt, hback, Int32.ofInt_toInt]
    · intro v hv
      exact absurd (hdigit '-' (hv ▸ List.mem_cons_self)) (by decide)
    · intro v hv
      exact absurd (hdigit '+' (hv ▸ List.mem_cons_self)) (by decide)

/-! ## The casts -/

/-- The two casts of a type.  An object of it is an `R`: a container is its elements in
iteration order.  What `==` sees of the object is a `T`. -/
structure Casts (R T : Type) where
  value : R → T
  /-- `LexicalCast<T, std::string>`; `none` where it throws. -/
  toText : R → Option Text
  /-- `LexicalCast<std::string, T>`; `none` where it throws. -/
  ofText : Text → Option T
  /-- The strings in a value that are elements, or values of keys. -/
  strings : T → Set Text

/-- `int`, which the general template leaves to `boost::lexical_cast`. -/
def castInt : Casts Int32 Int32 where
  value := id
  toText := fun i => some (intText i)
  ofText := lexicalInt
  strings := fun _ => ∅

/-- `std::string`, which the general template copies. -/
def castString : Casts Text Text where
  value := id
  toText := some
  ofText := some
  strings := fun s => {s}

section

variable (yaml : Yaml) {R T : Type}

/-- `YAML::Load(LexicalCast<T, std::string>()(i))`. -/
def loadText (c : Casts R T) (i : R) : Option Node :=
  (c.toText i).bind yaml.load

/-- `for (auto& i : v) node.push_back(…)`, and `ss << node`. -/
def elementsToText (c : Casts R T) (v : List R) : Option Text :=
  (v.foldlM (fun (node : Node) i => (loadText yaml c i).map node.pushBack) .null).map yaml.emit

/-- `LexicalCast<std::string, T>` of the texts of `node[0]`, `node[1]`, … -/
def elementsOfText (c : Casts R T) (text : Text) : Option (List T) := do
  let node ← yaml.load text
  (yaml.elements node).mapM fun n => c.ofText (n.elim [] yaml.emit)

/-- `for (auto& i : v) node[i.first] = …`, and `ss << node`. -/
def entriesToText (c : Casts R T) (v : List (Text × R)) : Option Text :=
  (v.foldlM (fun (node : Node) i => (loadText yaml c i.2).map (node.assign i.1)) .null).map
    yaml.emit

/-- The pairs of a map in their order. -/
def Entries.toList : Entries → List (Text × Node)
  | .nil => []
  | .cons key value rest => (key, value) :: rest.toList

/-- What the iterator of a node shows as pairs; the items of a sequence have no key, for
which `Scalar()` throws. -/
def Node.pairs : Node → Option (List (Text × Node))
  | .null | .scalar _ | .sequence [] => some []
  | .sequence (_ :: _) => none
  | .map entries => some entries.toList

/-- The keys of the node, each with `LexicalCast<std::string, T>` of the text of its
value. -/
def entriesOfText (c : Casts R T) (text : Text) : Option (List (Text × T)) := do
  let node ← yaml.load text
  let pairs ← node.pairs
  pairs.mapM fun it => (c.ofText (yaml.emit it.2)).map (it.1, ·)

/-- The pairs inserted one after the other; a key that is there stays as it is. -/
def mapOf (pairs : List (Text × T)) : Finmap fun _ : Text => T :=
  (pairs.map fun e => (⟨e.1, e.2⟩ : Σ _ : Text, T)).toFinmap

/-! ### The containers -/

/-- `std::vector<T>`. -/
def castVector (c : Casts R T) : Casts (List R) (List T) where
  value := List.map c.value
  toText := elementsToText yaml c
  ofText := elementsOfText yaml c
  strings := fun v => { s | ∃ x ∈ v, s ∈ c.strings x }

/-- `std::list<T>`. -/
def castList (c : Casts R T) : Casts (List R) (List T) where
  value := List.map c.value
  toText := elementsToText yaml c
  ofText := elementsOfText yaml c
  strings := fun v => { s | ∃ x ∈ v, s ∈ c.strings x }

/-- `std::set<T>`, whose elements are in the order of `T`. -/
def castSet [LinearOrder T] (c : Casts R T) :
    Casts { l : List R // (l.map c.value).Pairwise (· < ·) } (Finset T) where
  value := fun v => (v.1.map c.value).toFinset
  toText := fun v => elementsToText yaml c v.1
  ofText := fun text => (elementsOfText yaml c text).map List.toFinset
  strings := fun v => { s | ∃ x ∈ v, s ∈ c.strings x }

/-- `std::unordered_set<T>`, whose elements are in any order. -/
def castUnorderedSet [DecidableEq T] (c : Casts R T) :
    Casts { l : List R // (l.map c.value).Nodup } (Finset T) where
  value := fun v => (v.1.map c.value).toFinset
  toText := fun v => elementsToText yaml c v.1
  ofText := fun text => (elementsOfText yaml c text).map List.toFinset
  strings := fun v => { s | ∃ x ∈ v, s ∈ c.strings x }

/-- `std::map<std::string, T>`, whose keys are in order. -/
def castMap (c : Casts R T) :
    Casts { l : List (Text × R) // (l.map Prod.fst).Pairwise (· < ·) }
      (Finmap fun _ : Text => T) where
  value := fun v => mapOf (v.1.map fun e => (e.1, c.value e.2))
  toText := fun v => entriesToText yaml c v.1
  ofText := fun text => (entriesOfText yaml c text).map mapOf
  strings := fun v => { s | ∃ key x, v.lookup key = some x ∧ s ∈ c.strings x }

/-- `std::unordered_map<std::string, T>`, whose keys are in any order. -/
def castUnorderedMap (c : Casts R T) :
    Casts { l : List (Text × R) // (l.map Prod.fst).Nodup } (Finmap fun _ : Text => T) where
  value := fun v => mapOf (v.1.map fun e => (e.1, c.value e.2))
  toText := fun v => entriesToText yaml c v.1
  ofText := fun text => (entriesOfText yaml c text).map mapOf
  strings := fun v => { s | ∃ key x, v.lookup key = some x ∧ s ∈ c.strings x }

/-- The second are the casts of a container of what the first are for. -/
inductive Contains : ∀ {R T R' T' : Type}, Casts R T → Casts R' T' → Prop
  | vector {R T : Type} (c : Casts R T) : Contains c (castVector yaml c)
  | list {R T : Type} (c : Casts R T) : Contains c (castList yaml c)
  | set {R T : Type} [LinearOrder T] (c : Casts R T) : Contains c (castSet yaml c)
  | unorderedSet {R T : Type} [DecidableEq T] (c : Casts R T) :
      Contains c (castUnorderedSet yaml c)
  | map {R T : Type} (c : Casts R T) : Contains c (castMap yaml c)
  | unorderedMap {R T : Type} (c : Casts R T) : Contains c (castUnorderedMap yaml c)

/-- The types of elements: numbers, strings, and containers of such. -/
inductive Element : ∀ {R T : Type}, Casts R T → Prop
  | int : Element castInt
  | string : Element castString
  | container {R T R' T' : Type} {c : Casts R T} {c' : Casts R' T'} (h : Element c)
      (hover : Contains yaml c c') : Element c'

end

/-! ## Building the node -/

/-- The node of a map: the null node when nothing is assigned. -/
def Node.ofPairs : List (Text × Node) → Node
  | [] => .null
  | pairs => .map (pairs.foldr (fun e es => .cons e.1 e.2 es) .nil)

@[simp] theorem toList_foldr_cons : ∀ pairs : List (Text × Node),
    (pairs.foldr (fun e es => Entries.cons e.1 e.2 es) .nil).toList = pairs
  | [] => rfl
  | e :: pairs => by rw [List.foldr_cons, Entries.toList, toList_foldr_cons pairs]

theorem Node.pairs_ofPairs (pairs : List (Text × Node)) :
    (ofPairs pairs).pairs = some pairs := by
  cases pairs with
  | nil => rfl
  | cons e pairs => exact congrArg some (toList_foldr_cons (e :: pairs))

/-- A new key goes to the end. -/
theorem put_new (key : Text) (value : Node) : ∀ pairs : List (Text × Node),
    key ∉ pairs.map Prod.fst →
    (pairs.foldr (fun e es => Entries.cons e.1 e.2 es) .nil).put key value =
      (pairs ++ [(key, value)]).foldr (fun e es => Entries.cons e.1 e.2 es) .nil
  | [], _ => rfl
  | e :: pairs, hnew => by
      rw [List.map_cons, List.mem_cons, not_or] at hnew
      rw [List.foldr_cons, Entries.put, if_neg (Ne.symm hnew.1), put_new key value pairs hnew.2]
      rfl

theorem Node.assign_ofPairs {key : Text} {pairs : List (Text × Node)}
    (hnew : key ∉ pairs.map Prod.fst) (value : Node) :
    (ofPairs pairs).assign key value = ofPairs (pairs ++ [(key, value)]) := by
  cases pairs with
  | nil => rfl
  | cons e pairs => exact congrArg Node.map (put_new key value (e :: pairs) hnew)

section Loops

open Lib

variable {yaml : Yaml} {R T : Type} {c : Casts R T}

/-- The loop over the elements pushes the nodes of their texts. -/
theorem foldlM_pushBack (load : R → Option Node) : ∀ (v : List R) (items : List Node),
    v.foldlM (fun (node : Node) i => (load i).map node.pushBack) (.ofList items) =
      (v.mapM load).map fun more => .ofList (items ++ more)
  | [], items => by simp
  | i :: v, items => by
      rw [List.foldlM_cons, mapM_cons_option]
      cases load i with
      | none => rfl
      | some n =>
          have hrest := foldlM_pushBack load v (items ++ [n])
          rw [← Node.pushBack_ofList] at hrest
          rw [Option.map_some, Option.bind_eq_bind, Option.bind_some, hrest, Option.bind_some,
            Option.map_map]
          congr 1
          funext more
          simp

/-- The loop over the pairs assigns the nodes of their texts. -/
theorem foldlM_assign (load : R → Option Node) : ∀ (v : List (Text × R))
    (pairs : List (Text × Node)), (pairs.map Prod.fst ++ v.map Prod.fst).Nodup →
    v.foldlM (fun (node : Node) i => (load i.2).map (node.assign i.1)) (.ofPairs pairs) =
      (v.mapM fun i => (load i.2).map (i.1, ·)).map fun more => .ofPairs (pairs ++ more)
  | [], pairs, _ => by simp
  | (key, i) :: v, pairs, hnd => by
      have hnew : key ∉ pairs.map Prod.fst := fun hmem =>
        (List.nodup_append.mp hnd).2.2 key hmem key List.mem_cons_self rfl
      rw [List.foldlM_cons, mapM_cons_option]
      cases load i with
      | none => rfl
      | some n =>
          have hnd' : ((pairs ++ [(key, n)]).map Prod.fst ++ v.map Prod.fst).Nodup := by
            rw [List.map_append, List.append_assoc]
            exact hnd
          have hrest := foldlM_assign load v (pairs ++ [(key, n)]) hnd'
          rw [← Node.assign_ofPairs hnew] at hrest
          rw [Option.map_some, Option.bind_eq_bind, Option.bind_some, hrest, Option.map_some,
            Option.bind_some, Option.map_map]
          congr 1
          funext more
          simp

/-! ## What comes back -/

/-- What an element comes back as, inside a container. -/
def Casts.back (yaml : Yaml) (c : Casts R T) (i : R) : Option T :=
  (loadText yaml c i).bind fun n => c.ofText (yaml.emit n)

/-- `LexicalCast<std::string, C>()(LexicalCast<C, std::string>()(v))`. -/
def Casts.roundTrip (c : Casts R T) (v : R) : Option T :=
  (c.toText v).bind c.ofText

/-- The text loads, and is printed again for the node. -/
def Yaml.Reprints (yaml : Yaml) (s : Text) : Prop :=
  ∃ n, yaml.load s = some n ∧ yaml.emit n = s

/-- Every string in a value does. -/
def Casts.Kept (yaml : Yaml) (c : Casts R T) (t : T) : Prop :=
  ∀ s ∈ c.strings t, yaml.Reprints s

theorem elements_roundTrip (hload : ∀ n, yaml.load (yaml.emit n) = some n) (v : List R) :
    (elementsToText yaml c v).bind (elementsOfText yaml c) = v.mapM (c.back yaml) := by
  have hread (items : List Node) : elementsOfText yaml c (yaml.emit (.ofList items)) =
      items.mapM fun n => c.ofText (yaml.emit n) := by
    rw [elementsOfText, hload, Option.bind_eq_bind, Option.bind_some, yaml.elements_ofList,
      List.mapM_map]
    rfl
  have hloop := foldlM_pushBack (loadText yaml c) v []
  rw [Node.ofList] at hloop
  rw [elementsToText, hloop, Option.map_map, Option.bind_map]
  refine Eq.trans ?_ (mapM_bind_mapM (loadText yaml c) (fun n => c.ofText (yaml.emit n)) v)
  exact Option.bind_congr fun items _ => hread items

/-- What the two kinds of sets have in common. -/
theorem toFinset_roundTrip [DecidableEq T] (hload : ∀ n, yaml.load (yaml.emit n) = some n)
    (v : List R) :
    (elementsToText yaml c v).bind
        (fun text => (elementsOfText yaml c text).map List.toFinset) =
      (v.mapM (c.back yaml)).map List.toFinset := by
  rw [← elements_roundTrip hload, Option.map_bind]
  rfl

theorem entries_roundTrip (hload : ∀ n, yaml.load (yaml.emit n) = some n) {v : List (Text × R)}
    (hnd : (v.map Prod.fst).Nodup) :
    (entriesToText yaml c v).bind (entriesOfText yaml c) =
      v.mapM fun e => (c.back yaml e.2).map (e.1, ·) := by
  have hread (pairs : List (Text × Node)) : entriesOfText yaml c (yaml.emit (.ofPairs pairs)) =
      pairs.mapM fun it => (c.ofText (yaml.emit it.2)).map (it.1, ·) := by
    rw [entriesOfText, hload, Option.bind_eq_bind, Option.bind_some, Node.pairs_ofPairs,
      Option.bind_eq_bind, Option.bind_some]
  have hloop := foldlM_assign (loadText yaml c) v [] (by rwa [List.map_nil, List.nil_append])
  rw [Node.ofPairs] at hloop
  have hcomp := mapM_bind_mapM (fun e : Text × R => (loadText yaml c e.2).map (e.1, ·))
    (fun it => (c.ofText (yaml.emit it.2)).map (it.1, ·)) v
  rw [entriesToText, hloop, Option.map_map, Option.bind_map]
  refine Eq.trans (Option.bind_congr fun pairs _ => hread pairs) (hcomp.trans ?_)
  congr 1
  funext e
  rw [Option.bind_map, Casts.back, Option.map_bind]
  rfl

theorem lookup_mapOf {pairs : List (Text × T)} (hnd : (pairs.map Prod.fst).Nodup) {key : Text}
    {x : T} : (mapOf pairs).lookup key = some x ↔ (key, x) ∈ pairs := by
  have hkeys : (pairs.map fun e => (⟨e.1, e.2⟩ : Σ _ : Text, T)).NodupKeys := by
    rw [List.NodupKeys, List.keys, List.map_map]
    exact hnd
  rw [mapOf, Finmap.dlookup_list_toFinmap, ← Option.mem_def, List.mem_dlookup_iff hkeys,
    List.mem_map]
  constructor
  · rintro ⟨⟨_, _⟩, he, heq⟩
    cases heq
    exact he
  · intro he
    exact ⟨(key, x), he, rfl⟩

/-- What the two kinds of maps have in common. -/
theorem mapOf_roundTrip (hload : ∀ n, yaml.load (yaml.emit n) = some n) {v : List (Text × R)}
    (hnd : (v.map Prod.fst).Nodup) :
    (entriesToText yaml c v).bind (fun text => (entriesOfText yaml c text).map mapOf) =
      (v.mapM fun e => (c.back yaml e.2).map (e.1, ·)).map mapOf := by
  rw [← entries_roundTrip hload hnd, Option.map_bind]
  rfl

/-- What is known of an element: it comes back as it was exactly if its strings are kept, and
what it comes back as has none that are not. -/
structure Survives (yaml : Yaml) (c : Casts R T) : Prop where
  back_iff : ∀ i, c.back yaml i = some (c.value i) ↔ c.Kept yaml (c.value i)
  kept_of_back : ∀ i t, c.back yaml i = some t → c.Kept yaml t

namespace Survives

theorem mapM_iff (h : Survives yaml c) (v : List R) :
    v.mapM (c.back yaml) = some (v.map c.value) ↔ ∀ x ∈ v, c.Kept yaml (c.value x) := by
  rw [mapM_eq_map_iff]
  exact forall₂_congr fun x _ => h.back_iff x

theorem kept_of_mapM (h : Survives yaml c) {v : List R} {ts : List T}
    (hback : v.mapM (c.back yaml) = some ts) : ∀ t ∈ ts, c.Kept yaml t := by
  intro t ht
  obtain ⟨x, -, hx⟩ := exists_of_mem_mapM hback ht
  exact h.kept_of_back x t hx

theorem kept_of_toFinset [DecidableEq T] (h : Survives yaml c) {v : List R} {t : Finset T}
    (hv : (v.mapM (c.back yaml)).map List.toFinset = some t) : ∀ x ∈ t, c.Kept yaml x := by
  obtain ⟨ts, hts, rfl⟩ := Option.map_eq_some_iff.mp hv
  exact fun x hx => h.kept_of_mapM hts x (List.mem_toFinset.mp hx)

/-- A set comes back exactly if its elements do: an element that does not come back cannot
be what another one comes back as. -/
theorem toFinset_iff [DecidableEq T] (h : Survives yaml c) (v : List R) :
    (v.mapM (c.back yaml)).map List.toFinset = some (v.map c.value).toFinset ↔
      ∀ x ∈ (v.map c.value).toFinset, c.Kept yaml x := by
  constructor
  · exact h.kept_of_toFinset
  · intro hall
    have hkept : ∀ x ∈ v, c.Kept yaml (c.value x) := fun x hx =>
      hall _ (List.mem_toFinset.mpr (List.mem_map_of_mem hx))
    rw [(h.mapM_iff v).mpr hkept]
    rfl

/-- The pairs that come back have the keys of those that went. -/
theorem keys_of_mapM {v : List (Text × R)} {ps : List (Text × T)}
    (hps : (v.mapM fun e => (c.back yaml e.2).map (e.1, ·)) = some ps) :
    ps.map Prod.fst = v.map Prod.fst := by
  have hpairs := mapM_eq_some_iff.mp hps
  induction hpairs with
  | nil => rfl
  | cons hp _ ih =>
      obtain ⟨x, -, rfl⟩ := Option.map_eq_some_iff.mp hp
      rw [List.map_cons, List.map_cons, ih (mapM_eq_some_iff.mpr ‹_›)]

theorem kept_of_mapOf (h : Survives yaml c) {v : List (Text × R)}
    (hnd : (v.map Prod.fst).Nodup) {t : Finmap fun _ : Text => T}
    (hv : (v.mapM fun e => (c.back yaml e.2).map (e.1, ·)).map mapOf = some t) :
    ∀ key x, t.lookup key = some x → c.Kept yaml x := by
  obtain ⟨ps, hps, rfl⟩ := Option.map_eq_some_iff.mp hv
  intro key x hx
  obtain ⟨i, -, hi⟩ := exists_of_mem_mapM hps ((lookup_mapOf (keys_of_mapM hps ▸ hnd)).mp hx)
  obtain ⟨y, hy, heq⟩ := Option.map_eq_some_iff.mp hi
  obtain ⟨-, rfl⟩ := Prod.mk.inj heq
  exact h.kept_of_back i.2 y hy

/-- A map comes back exactly if its values do. -/
theorem mapOf_iff (h : Survives yaml c) {v : List (Text × R)} (hnd : (v.map Prod.fst).Nodup) :
    (v.mapM fun e => (c.back yaml e.2).map (e.1, ·)).map mapOf =
        some (mapOf (v.map fun e => (e.1, c.value e.2))) ↔
      ∀ key x, (mapOf (v.map fun e => (e.1, c.value e.2))).lookup key = some x →
        c.Kept yaml x := by
  constructor
  · exact h.kept_of_mapOf hnd
  · intro hall
    have hkeys : ((v.map fun e => (e.1, c.value e.2)).map Prod.fst).Nodup := by
      rw [List.map_map]
      exact hnd
    have hback : (v.mapM fun e => (c.back yaml e.2).map (e.1, ·)) =
        some (v.map fun e => (e.1, c.value e.2)) := by
      rw [mapM_eq_map_iff]
      intro e he
      have hlookup := (lookup_mapOf hkeys).mpr (List.mem_map_of_mem he)
      rw [(h.back_iff e.2).mpr (hall e.1 _ hlookup)]
      rfl
    rw [hback]
    rfl

end Survives

/-! ## Containers -/

/-- What is proved of a container. -/
structure RoundTrips (yaml : Yaml) (c : Casts R T) : Prop where
  iff : ∀ v, c.roundTrip v = some (c.value v) ↔ c.Kept yaml (c.value v)
  kept : ∀ v t, c.roundTrip v = some t → c.Kept yaml t
  printed : ∀ v text, c.toText v = some text → ∃ n, yaml.emit n = text

/-- A container is an element like any other: its text is that of a node, and survives. -/
theorem RoundTrips.survives (hload : ∀ n, yaml.load (yaml.emit n) = some n)
    (h : RoundTrips yaml c) : Survives yaml c := by
  have hback : ∀ v, c.back yaml v = c.roundTrip v := by
    intro v
    rw [Casts.back, Casts.roundTrip, loadText, Option.bind_assoc]
    refine Option.bind_congr fun text htext => ?_
    obtain ⟨n, rfl⟩ := h.printed v text htext
    rw [hload, Option.bind_some]
  refine ⟨fun v => ?_, fun v t hv => ?_⟩
  · rw [hback]
    exact h.iff v
  · rw [hback] at hv
    exact h.kept v t hv

theorem printed_of_loop {α : Type*} {f : Node → α → Option Node} {v : List α} {text : Text}
    (h : (v.foldlM f .null).map yaml.emit = some text) : ∃ n, yaml.emit n = text := by
  obtain ⟨n, -, hn⟩ := Option.map_eq_some_iff.mp h
  exact ⟨n, hn⟩

/-- The strings of a container are those of its elements. -/
theorem kept_elements {M : Type*} [Membership T M] {ts : M} :
    (∀ s ∈ { s | ∃ x ∈ ts, s ∈ c.strings x }, yaml.Reprints s) ↔ ∀ x ∈ ts, c.Kept yaml x :=
  ⟨fun h x hx s hs => h s ⟨x, hx, hs⟩, fun h s ⟨x, hx, hs⟩ => h x hx s hs⟩

/-- The strings of a map are those of the values of its keys. -/
theorem kept_values {t : Finmap fun _ : Text => T} :
    (∀ s ∈ { s | ∃ key x, t.lookup key = some x ∧ s ∈ c.strings x }, yaml.Reprints s) ↔
      ∀ key x, t.lookup key = some x → c.Kept yaml x :=
  ⟨fun h key x hx s hs => h s ⟨key, x, hx, hs⟩, fun h s ⟨key, x, hx, hs⟩ => h key x hx s hs⟩

theorem roundTrips_vector (hload : ∀ n, yaml.load (yaml.emit n) = some n)
    (h : Survives yaml c) : RoundTrips yaml (castVector yaml c) where
  iff := fun v => by
    rw [Casts.Kept, castVector, kept_elements, List.forall_mem_map, ← h.mapM_iff,
      ← elements_roundTrip hload]
    rfl
  kept := fun v t hv => by
    rw [Casts.Kept, castVector, kept_elements]
    exact h.kept_of_mapM ((elements_roundTrip hload v).symm.trans hv)
  printed := fun v text htext => printed_of_loop htext

theorem roundTrips_set [LinearOrder T] (hload : ∀ n, yaml.load (yaml.emit n) = some n)
    (h : Survives yaml c) : RoundTrips yaml (castSet yaml c) where
  iff := fun v => by
    rw [Casts.Kept, castSet, kept_elements, ← h.toFinset_iff, ← toFinset_roundTrip hload]
    rfl
  kept := fun v t hv => by
    rw [Casts.Kept, castSet, kept_elements]
    exact h.kept_of_toFinset ((toFinset_roundTrip hload v.1).symm.trans hv)
  printed := fun v text htext => printed_of_loop htext

theorem roundTrips_unorderedSet [DecidableEq T]
    (hload : ∀ n, yaml.load (yaml.emit n) = some n) (h : Survives yaml c) :
    RoundTrips yaml (castUnorderedSet yaml c) where
  iff := fun v => by
    rw [Casts.Kept, castUnorderedSet, kept_elements, ← h.toFinset_iff, ← toFinset_roundTrip hload]
    rfl
  kept := fun v t hv => by
    rw [Casts.Kept, castUnorderedSet, kept_elements]
    exact h.kept_of_toFinset ((toFinset_roundTrip hload v.1).symm.trans hv)
  printed := fun v text htext => printed_of_loop htext

theorem roundTrips_map (hload : ∀ n, yaml.load (yaml.emit n) = some n) (h : Survives yaml c) :
    RoundTrips yaml (castMap yaml c) where
  iff := fun v => by
    have hnd : (v.1.map Prod.fst).Nodup := v.2.imp ne_of_lt
    rw [Casts.Kept, castMap, kept_values, ← h.mapOf_iff hnd, ← mapOf_roundTrip hload hnd]
    rfl
  kept := fun v t hv => by
    have hnd : (v.1.map Prod.fst).Nodup := v.2.imp ne_of_lt
    rw [Casts.Kept, castMap, kept_values]
    exact h.kept_of_mapOf hnd ((mapOf_roundTrip hload hnd).symm.trans hv)
  printed := fun v text htext => printed_of_loop htext

theorem roundTrips_unorderedMap (hload : ∀ n, yaml.load (yaml.emit n) = some n)
    (h : Survives yaml c) : RoundTrips yaml (castUnorderedMap yaml c) where
  iff := fun v => by
    rw [Casts.Kept, castUnorderedMap, kept_values, ← h.mapOf_iff v.2, ← mapOf_roundTrip hload v.2]
    rfl
  kept := fun v t hv => by
    rw [Casts.Kept, castUnorderedMap, kept_values]
    exact h.kept_of_mapOf v.2 ((mapOf_roundTrip hload v.2).symm.trans hv)
  printed := fun v text htext => printed_of_loop htext

theorem Contains.roundTrips {R' T' : Type} {c' : Casts R' T'} (hover : Contains yaml c c')
    (hload : ∀ n, yaml.load (yaml.emit n) = some n) (h : Survives yaml c) : RoundTrips yaml c' := by
  cases hover with
  | vector | list => exact roundTrips_vector hload h
  | set => exact roundTrips_set hload h
  | unorderedSet => exact roundTrips_unorderedSet hload h
  | map => exact roundTrips_map hload h
  | unorderedMap => exact roundTrips_unorderedMap hload h

/-! ## Nesting -/

/-- What the casts rely on: trees come back from their texts, the empty text is a null node,
which is printed as `~`, and the text of a number is a scalar that is printed as it is. -/
structure Yaml.Documented (yaml : Yaml) : Prop where
  load_emit : ∀ n, yaml.load (yaml.emit n) = some n
  load_nil : yaml.load [] = some .null
  emit_null : yaml.emit .null = ['~']
  load_int : ∀ i, yaml.load (intText i) = some (.scalar (intText i))
  emit_int : ∀ i, yaml.emit (.scalar (intText i)) = intText i

theorem survives_int (hyaml : yaml.Documented) : Survives yaml castInt := by
  have hback (i : Int32) : castInt.back yaml i = some i := by
    rw [Casts.back, loadText, castInt, Option.bind_some, hyaml.load_int, Option.bind_some,
      hyaml.emit_int]
    exact lexicalInt_intText i
  have hkept (i : Int32) : castInt.Kept yaml i := fun s hs => absurd hs (Set.notMem_empty s)
  exact ⟨fun i => iff_of_true (hback i) (hkept i), fun i t _ => hkept t⟩

theorem survives_string (hyaml : yaml.Documented) : Survives yaml castString := by
  have hback (s t : Text) : castString.back yaml s = some t ↔
      ∃ n, yaml.load s = some n ∧ yaml.emit n = t := by
    rw [Casts.back, loadText, castString, Option.bind_some, Option.bind_eq_some_iff]
    simp only [Option.some.injEq]
  have hkept (t : Text) : castString.Kept yaml t ↔ yaml.Reprints t :=
    ⟨fun h => h t rfl, fun h s hs => hs ▸ h⟩
  refine ⟨fun s => (hback s s).trans (hkept s).symm, fun s t ht => ?_⟩
  obtain ⟨n, -, rfl⟩ := (hback s t).mp ht
  exact (hkept _).mpr ⟨n, hyaml.load_emit n, rfl⟩

theorem Element.survives (hyaml : yaml.Documented) (hc : Element yaml c) : Survives yaml c := by
  induction hc with
  | int => exact survives_int hyaml
  | string => exact survives_string hyaml
  | container h hover ih => exact (hover.roundTrips hyaml.load_emit ih).survives hyaml.load_emit

/-- The empty string is printed as a null node. -/
theorem not_reprints_nil (hyaml : yaml.Documented) : ¬ yaml.Reprints [] := by
  rintro ⟨n, hn, hemit⟩
  obtain rfl := Option.some.inj (hyaml.load_nil.symm.trans hn)
  rw [hyaml.emit_null] at hemit
  cases hemit

/-- **A container comes back from its text exactly if its strings do from theirs.** -/
theorem roundTrip_iff (hyaml : yaml.Documented) (hc : Element yaml c) {R' T' : Type}
    {c' : Casts R' T'} (hover : Contains yaml c c') (v : R') :
    c'.roundTrip v = some (c'.value v) ↔ ∀ s ∈ c'.strings (c'.value v), yaml.Reprints s :=
  (hover.roundTrips hyaml.load_emit (hc.survives hyaml)).iff v

end Loops

/-! ## A printer -/

/-- A string, character by character. -/
def quote : Text → Text
  | [] => ['.']
  | c :: s => ',' :: c :: quote s

def unquote : Text → Option (Text × Text)
  | '.' :: r => some ([], r)
  | ',' :: c :: r => (unquote r).map fun (s, r) => (c :: s, r)
  | _ => none

theorem unquote_quote (r : Text) : ∀ s : Text, unquote (quote s ++ r) = some (s, r)
  | [] => rfl
  | c :: s => by
      rw [quote, List.cons_append, List.cons_append, unquote, unquote_quote r s]
      rfl

mutual

/-- A tree in one line. -/
def code : Node → Text
  | .null => ['n']
  | .scalar s => 's' :: quote s
  | .sequence items => 'l' :: codeItems items
  | .map entries => 'm' :: codeEntries entries

def codeItems : List Node → Text
  | [] => ['.']
  | n :: items => ',' :: (code n ++ codeItems items)

def codeEntries : Entries → Text
  | .nil => ['.']
  | .cons key value rest => ',' :: (quote key ++ (code value ++ codeEntries rest))

end

mutual

def decode : Nat → Text → Option (Node × Text)
  | 0, _ => none
  | fuel + 1, c :: r =>
      if c = 'n' then some (.null, r)
      else if c = 's' then (unquote r).map fun (s, r) => (.scalar s, r)
      else if c = 'l' then (decodeItems fuel r).map fun (items, r) => (.sequence items, r)
      else (decodeEntries fuel r).map fun (entries, r) => (.map entries, r)
  | _ + 1, [] => none

def decodeItems : Nat → Text → Option (List Node × Text)
  | 0, _ => none
  | fuel + 1, c :: r =>
      if c = '.' then some ([], r)
      else do
        let (n, r) ← decode fuel r
        let (items, r) ← decodeItems fuel r
        some (n :: items, r)
  | _ + 1, [] => none

def decodeEntries : Nat → Text → Option (Entries × Text)
  | 0, _ => none
  | fuel + 1, c :: r =>
      if c = '.' then some (.nil, r)
      else do
        let (key, r) ← unquote r
        let (value, r) ← decode fuel r
        let (rest, r) ← decodeEntries fuel r
        some (.cons key value rest, r)
  | _ + 1, [] => none

end

mutual

theorem decode_code (r : Text) : ∀ (n : Node) (fuel : Nat), (code n).length ≤ fuel →
    decode fuel (code n ++ r) = some (n, r)
  | .null, fuel + 1, _ => rfl
  | .scalar s, fuel + 1, _ => by
      simp [code, decode, unquote_quote]
  | .sequence items, fuel + 1, h => by
      have hle : (codeItems items).length ≤ fuel := by simpa [code] using h
      simp [code, decode, decodeItems_code r items fuel hle]
  | .map entries, fuel + 1, h => by
      have hle : (codeEntries entries).length ≤ fuel := by simpa [code] using h
      simp [code, decode, decodeEntries_code r entries fuel hle]

theorem decodeItems_code (r : Text) : ∀ (items : List Node) (fuel : Nat),
    (codeItems items).length ≤ fuel → decodeItems fuel (codeItems items ++ r) = some (items, r)
  | [], fuel + 1, _ => rfl
  | n :: items, fuel + 1, h => by
      have hle : (code n).length + (codeItems items).length ≤ fuel := by
        simpa [codeItems] using h
      have hn := decode_code (codeItems items ++ r) n fuel (by omega)
      have hitems := decodeItems_code r items fuel (by omega)
      simp [codeItems, decodeItems, hn, hitems]

theorem decodeEntries_code (r : Text) : ∀ (entries : Entries) (fuel : Nat),
    (codeEntries entries).length ≤ fuel →
    decodeEntries fuel (codeEntries entries ++ r) = some (entries, r)
  | .nil, fuel + 1, _ => rfl
  | .cons key value rest, fuel + 1, h => by
      have hle : (quote key).length + ((code value).length + (codeEntries rest).length) ≤ fuel := by
        simpa [codeEntries] using h
      have hkey := unquote_quote (code value ++ (codeEntries rest ++ r)) key
      have hvalue := decode_code (codeEntries rest ++ r) value fuel (by omega)
      have hrest := decodeEntries_code r rest fuel (by omega)
      simp [codeEntries, decodeEntries, hkey, hvalue, hrest]

end

/-- Words that are no scalars. -/
def nullWords : List Text :=
  ["null".toList, "Null".toList, "NULL".toList]

/-- A plain scalar: letters and digits, or a negative number. -/
def isPlain : Text → Bool
  | [] => false
  | '-' :: s => !s.isEmpty && s.all Char.isDigit
  | s => s.all Char.isAlphanum && !nullWords.contains s

/-- The text of a leaf, where it needs no quotes. -/
def leafText : Node → Option Text
  | .null => some ['~']
  | .scalar s => if isPlain s then some s else none
  | _ => none

def readLeaf (t : Text) : Option Node :=
  if t = ['~'] then some .null else if isPlain t then some (.scalar t) else none

/-- A leaf, or a sequence of one leaf, as YAML has them; any other tree as a code. -/
def blockText : Node → Option Text
  | .sequence [n] => (leafText n).map fun t => '-' :: ' ' :: t
  | n => leafText n

/-- A yaml-cpp that reads back all it prints. -/
def blocks : Yaml :=
  { emit            := fun n => (blockText n).getD ('"' :: code n)
    load            := fun
      | [] => some .null
      | '"' :: t => (decode t.length t).map Prod.fst
      | '-' :: ' ' :: t => (readLeaf t).map fun n => .sequence [n]
      | t => readLeaf t
    asString        := fun
      | .scalar text => some text
      | _ => none
    asIndex         := digits
    asString_scalar := (Log.printing [] .null).asString_scalar }

theorem leafText_eq_some {n : Node} {t : Text} (h : leafText n = some t) :
    readLeaf t = some n ∧ (t = ['~'] ∨ isPlain t = true) := by
  cases n with
  | null =>
      obtain rfl := Option.some.inj h
      exact ⟨rfl, .inl rfl⟩
  | scalar s =>
      rw [leafText] at h
      split at h
      · rename_i hplain
        obtain rfl := Option.some.inj h
        have hne : s ≠ ['~'] := by
          rintro rfl
          revert hplain
          decide
        exact ⟨by rw [readLeaf, if_neg hne, if_pos hplain], .inr hplain⟩
      · cases h
  | sequence _ | map _ => cases h

/-- A leaf does not look like anything else. -/
theorem load_leaf {n : Node} {t : Text} (h : leafText n = some t) : blocks.load t = some n := by
  obtain ⟨hread, hform⟩ := leafText_eq_some h
  rcases hform with rfl | hplain
  · exact hread
  · rw [← hread]
    simp only [blocks]
    split
    · cases hplain
    · simp [isPlain] at hplain
    · simp [isPlain] at hplain
    · rfl

theorem load_emit_blocks (n : Node) : blocks.load (blocks.emit n) = some n := by
  have hcode : blocks.load ('"' :: code n) = some n := by
    have hdecode := decode_code [] n (code n).length le_rfl
    rw [List.append_nil] at hdecode
    simp only [blocks, hdecode, Option.map_some]
  have hleaf : leafText n = blockText n → blocks.load (blocks.emit n) = some n := by
    intro heq
    cases hn : leafText n with
    | none =>
        have hemit : blocks.emit n = '"' :: code n := by simp only [blocks, ← heq, hn]; rfl
        rw [hemit, hcode]
    | some t =>
        have hemit : blocks.emit n = t := by simp only [blocks, ← heq, hn]; rfl
        rw [hemit, load_leaf hn]
  match n with
  | .null | .scalar _ | .map _ | .sequence [] | .sequence (_ :: _ :: _) => exact hleaf rfl
  | .sequence [m] =>
      cases hm : leafText m with
      | none =>
          have hemit : blocks.emit (.sequence [m]) = '"' :: code (.sequence [m]) := by
            simp only [blocks, blockText, hm]
            rfl
          rw [hemit, hcode]
      | some t =>
          have hemit : blocks.emit (.sequence [m]) = '-' :: ' ' :: t := by
            simp only [blocks, blockText, hm]
            rfl
          rw [hemit]
          simp only [blocks, (leafText_eq_some hm).1, Option.map_some]

/-- Digits are a plain scalar. -/
theorem isPlain_of_digits : ∀ {t : Text}, t ≠ [] → (∀ c ∈ t, c.isDigit = true) → isPlain t = true
  | [], hne, _ => absurd rfl hne
  | c :: s, _, hdigit => by
      have hletters : (nullWords.all fun w => w.any fun l => !l.isDigit) = true := rfl
      have hword : c :: s ∉ nullWords := by
        intro hw
        obtain ⟨l, hl, hletter⟩ := List.any_eq_true.mp (List.all_eq_true.mp hletters _ hw)
        rw [hdigit l hl] at hletter
        cases hletter
      unfold isPlain
      split
      · rename_i heq
        cases heq
      · rename_i heq
        rw [heq] at hdigit
        exact absurd (hdigit '-' List.mem_cons_self) (by decide)
      · rw [Bool.and_eq_true, List.all_eq_true, Bool.not_eq_true']
        refine ⟨fun l hl => ?_, ?_⟩
        · rw [Char.isAlphanum, hdigit l hl, Bool.or_true]
        · rw [Bool.eq_false_iff]
          intro hmem
          exact hword (List.contains_iff_mem.mp hmem)

theorem isPlain_intText (i : Int32) : isPlain (intText i) = true := by
  have hdigit : ∀ c ∈ Nat.toDigits 10 i.toInt.natAbs, c.isDigit = true := fun c hc =>
    Nat.isDigit_of_mem_toDigits (by decide) (by decide) hc
  rw [intText]
  split
  · rw [isPlain, Bool.and_eq_true, List.all_eq_true]
    exact ⟨by simp, hdigit⟩
  · exact isPlain_of_digits Nat.toDigits_ne_nil hdigit

theorem documented_blocks : blocks.Documented where
  load_emit := load_emit_blocks
  load_nil := rfl
  emit_null := rfl
  load_int := fun i => load_leaf (if_pos (isPlain_intText i))
  emit_int := fun i => by
    have hleaf : blockText (.scalar (intText i)) = some (intText i) :=
      if_pos (isPlain_intText i)
    simp only [blocks, hleaf]
    rfl

/-- A vector of one word. -/
theorem roundTrip_iff_word :
    (castVector blocks castString).roundTrip ["word".toList] = some ["word".toList] :=
  (roundTrip_iff documented_blocks .string (.vector castString) ["word".toList]).mpr
    (by
      rintro s ⟨x, hx, rfl⟩
      obtain rfl := List.mem_singleton.mp hx
      exact ⟨.scalar "word".toList, rfl, rfl⟩)

/-- The vector of the empty string comes back as that of a tilde. -/
theorem roundTrip_empty_string :
    blocks.Documented ∧ Element blocks castString ∧
      Contains blocks castString (castVector blocks castString) ∧
      (castVector blocks castString).roundTrip [[]] = some [['~']] ∧
      (castVector blocks castString).roundTrip [[]] ≠
        some ((castVector blocks castString).value [[]]) := by
  have htilde : (castVector blocks castString).roundTrip [[]] = some [['~']] := rfl
  refine ⟨documented_blocks, .string, .vector castString, htilde, ?_⟩
  rw [htilde]
  exact fun h => absurd (Option.some.inj h) (by decide)

end CoLib.Config
