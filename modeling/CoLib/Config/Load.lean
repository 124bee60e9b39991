/-
# `CoLib.Config.Load` — loading configuration variables from a YAML tree

`Config::Lookup(name, default)` registers a variable under a name that it checks;
`Config::LoadFromYaml` walks a tree in pre-order and hands the text of a node to
the variable that is registered under the node's dotted path, in lower case.

The walk has a check of its own, made on the path as it is written: a node whose
path fails it is dropped with everything below it.  `expected` is the same
pre-order without the check.

**Proved here.**  `loadFromYaml_correct_iff`: the loader makes the expected calls of
`fromString`, and no others, exactly if no path that names a variable is empty,
contains the digit 9 or is not in lower case.  `reachable_iff`: a registered
variable can be set at all exactly if its name is neither empty nor contains a 9.

A string is the list of its characters; none outside ASCII is in either check's
alphabet or changed by `tolower`.  How yaml-cpp writes a node that is no scalar
is a parameter, `emit`.
-/
import Mathlib

namespace CoLib.Config

/-- A name, a key or a text. -/
abbrev Text := List Char

mutual

/-- `YAML::Node`.  The key of an entry is the text that `Scalar()` returns. -/
inductive Node where
  | null
  | scalar (text : Text)
  | sequence (items : List Node)
  | map (entries : Entries)

/-- The entries of a map. -/
inductive Entries where
  | nil
  | cons (key : Text) (value : Node) (rest : Entries)

end

/-! ## Names -/

/-- `name.find_first_not_of(alphabet) == npos`. -/
def onlyOf (alphabet : Text) (name : Text) : Bool :=
  name.all alphabet.contains

/-- The characters that `Lookup` allows. -/
def lookupAlphabet : Text := "abcdefghijklmnopqrstuvwxyz._0123456789".toList

/-- The characters that `ListAllMember` allows. -/
def memberAlphabet : Text := "abcdefghijklmnopqrstuvwxyz._012345678".toList

/-- `std::transform(…, ::tolower)`. -/
def lower (key : Text) : Text :=
  key.map Char.toLower

/-- The path of an entry. -/
def join (pre key : Text) : Text :=
  if pre.isEmpty then key else pre ++ '.' :: key

/-! ## The registry -/

/-- `Config::GetDatas()`: the names of the variables, each with its type. -/
structure Registry (τ : Type) where
  datas : List (Text × τ)
  named : ∀ e ∈ datas, onlyOf lookupAlphabet e.1 = true

namespace Registry

variable {τ : Type}

/-- The registry before any variable. -/
def empty : Registry τ := { datas := [], named := by simp }

/-- `GetDatas().find(name)`. -/
def find (reg : Registry τ) (name : Text) : Option τ :=
  (reg.datas.find? fun e => e.1 == name).map Prod.snd

/-- `Lookup<T>(name, default_value)`: the registry afterwards and the type of the
variable returned, `none` for `nullptr`.  The error is `std::invalid_argument`. -/
def lookup [DecidableEq τ] (reg : Registry τ) (type : τ) (name : Text) :
    Except Text (Registry τ × Option τ) :=
  match reg.find name with
  | some t => .ok (reg, if t = type then some t else none)
  | none =>
      if h : onlyOf lookupAlphabet name = true then
        .ok ({ datas := reg.datas ++ [(name, type)]
               named := by
                 intro e he
                 rcases List.mem_append.mp he with he | he
                 · exact reg.named e he
                 · rw [List.mem_singleton.mp he]
                   exact h }, some type)
      else .error name

/-- There is a variable of that name. -/
def has (reg : Registry τ) (name : Text) : Bool :=
  (reg.find name).isSome

theorem has_named {reg : Registry τ} {name : Text} (h : reg.has name = true) :
    onlyOf lookupAlphabet name = true := by
  rw [has, find, Option.isSome_map, List.find?_isSome] at h
  obtain ⟨e, he, heq⟩ := h
  rw [← eq_of_beq heq]
  exact reg.named e he

/-- `Lookup` registers exactly the names it allows. -/
theorem lookup_new [DecidableEq τ] {reg : Registry τ} {type : τ} {name : Text}
    (hnew : reg.has name = false) :
    (∃ reg' t, reg.lookup type name = .ok (reg', some t) ∧ reg'.has name = true) ↔
      onlyOf lookupAlphabet name = true := by
  have hnone : reg.find name = none := by
    rw [has, Option.isSome_eq_false_iff, Option.isNone_iff_eq_none] at hnew
    exact hnew
  constructor
  · rintro ⟨reg', -, -, hhas⟩
    exact has_named hhas
  · intro h
    have hnamed : ∀ e ∈ reg.datas ++ [(name, type)], onlyOf lookupAlphabet e.1 = true := by
      intro e he
      rcases List.mem_append.mp he with he | he
      · exact reg.named e he
      · rw [List.mem_singleton.mp he]
        exact h
    refine ⟨⟨reg.datas ++ [(name, type)], hnamed⟩, type, ?_, ?_⟩
    · simp only [lookup, hnone, dif_pos h]
    · rw [has, find, Option.isSome_map, List.find?_isSome]
      exact ⟨(name, type), List.mem_append_right _ (List.mem_singleton.mpr rfl), by simp⟩

end Registry

/-! ## Loading -/

mutual

/-- `ListAllMember(prefix, node, output)`: what is appended to `output`. -/
def listAllMember (pre : Text) : Node → List (Text × Node)
  | .map entries =>
      if onlyOf memberAlphabet pre then (pre, .map entries) :: listEntries pre entries else []
  | node => if onlyOf memberAlphabet pre then [(pre, node)] else []

/-- The loop over the entries of a map. -/
def listEntries (pre : Text) : Entries → List (Text × Node)
  | .nil => []
  | .cons key value rest => listAllMember (join pre key) value ++ listEntries pre rest

end

section Load

variable {τ : Type} (emit : Node → Text) (reg : Registry τ)

/-- The text given to `fromString`. -/
def textOf : Node → Text
  | .scalar text => text
  | node => emit node

/-- `LoadFromYaml(root)`: the calls of `fromString`, each with the name of its
variable. -/
def loadFromYaml (root : Node) : List (Text × Text) :=
  (listAllMember [] root).filterMap fun i =>
    let key := i.1
    if key.isEmpty then none
    else
      let key := lower key
      if reg.has key then some (key, textOf emit i.2) else none

mutual

/-- The nodes of a tree in pre-order, with their paths. -/
def nodes (pre : Text) : Node → List (Text × Node)
  | .map entries => (pre, .map entries) :: nodesOf pre entries
  | node => [(pre, node)]

/-- The nodes below a map. -/
def nodesOf (pre : Text) : Entries → List (Text × Node)
  | .nil => []
  | .cons key value rest => nodes (join pre key) value ++ nodesOf pre rest

end

/-- What is to be called for a node. -/
def callOf (i : Text × Node) : Option (Text × Text) :=
  if reg.has (lower i.1) then some (lower i.1, textOf emit i.2) else none

/-- The calls for all nodes whose path, in lower case, names a variable. -/
def expected (root : Node) : List (Text × Text) :=
  (nodes [] root).filterMap (callOf emit reg)

end Load

/-! ## The walk is the filtered pre-order -/

theorem onlyOf_prefix {alphabet xs ys : Text} (h : xs <+: ys) (hy : onlyOf alphabet ys = true) :
    onlyOf alphabet xs = true := by
  obtain ⟨zs, rfl⟩ := h
  rw [onlyOf, List.all_append, Bool.and_eq_true] at hy
  exact hy.1

theorem prefix_join (pre key : Text) : pre <+: join pre key := by
  cases pre with
  | nil => exact List.nil_prefix
  | cons c cs => exact List.prefix_append _ _

theorem nodes_leaf {pre : Text} {node : Node} (h : ∀ entries, node ≠ .map entries) :
    nodes pre node = [(pre, node)] ∧
      listAllMember pre node = if onlyOf memberAlphabet pre then [(pre, node)] else [] := by
  cases node with
  | map entries => exact absurd rfl (h entries)
  | null => exact ⟨by rw [nodes]; simp, by rw [listAllMember]; simp⟩
  | scalar text => exact ⟨by rw [nodes]; simp, by rw [listAllMember]; simp⟩
  | sequence items => exact ⟨by rw [nodes]; simp, by rw [listAllMember]; simp⟩

theorem prefix_leaf {pre : Text} {node : Node} {i : Text × Node}
    (h : ∀ entries, node ≠ .map entries) (hi : i ∈ nodes pre node) : pre <+: i.1 := by
  rw [(nodes_leaf h).1] at hi
  rw [List.mem_singleton.mp hi]

mutual

/-- A path begins with the paths of the maps above. -/
theorem prefix_nodes (pre : Text) :
    ∀ (node : Node) (i : Text × Node), i ∈ nodes pre node → pre <+: i.1
  | .map entries, i, hi => by
      rw [nodes] at hi
      rcases List.mem_cons.mp hi with rfl | hi
      · exact List.prefix_refl _
      · exact prefix_nodesOf pre entries i hi
  | .null, i, hi => prefix_leaf (by simp) hi
  | .scalar text, i, hi => prefix_leaf (by simp) hi
  | .sequence items, i, hi => prefix_leaf (by simp) hi

theorem prefix_nodesOf (pre : Text) :
    ∀ (entries : Entries) (i : Text × Node), i ∈ nodesOf pre entries → pre <+: i.1
  | .nil, i, hi => by
      rw [nodesOf] at hi
      exact absurd hi List.not_mem_nil
  | .cons key value rest, i, hi => by
      rw [nodesOf] at hi
      rcases List.mem_append.mp hi with hi | hi
      · exact (prefix_join pre key).trans (prefix_nodes (join pre key) value i hi)
      · exact prefix_nodesOf pre rest i hi

end

/-- What the walk keeps. -/
def kept (i : Text × Node) : Bool := onlyOf memberAlphabet i.1

/-- Below a path that fails the check everything fails it. -/
theorem filter_kept_nil {pre : Text} {is : List (Text × Node)}
    (hpre : onlyOf memberAlphabet pre = false) (his : ∀ i ∈ is, pre <+: i.1) :
    is.filter kept = [] := by
  refine List.filter_eq_nil_iff.mpr fun i hi hkept => ?_
  have hok := onlyOf_prefix (his i hi) hkept
  rw [hpre] at hok
  exact Bool.false_ne_true hok

theorem listAllMember_leaf {pre : Text} {node : Node} (h : ∀ entries, node ≠ .map entries) :
    listAllMember pre node = (nodes pre node).filter kept := by
  obtain ⟨hnodes, hmember⟩ := @nodes_leaf pre node h
  rw [hnodes, hmember]
  cases hpre : onlyOf memberAlphabet pre with
  | true => simp [kept, hpre]
  | false => simp [kept, hpre]

mutual

/-- The walk keeps the nodes of the pre-order whose path passes the check. -/
theorem listAllMember_eq (pre : Text) :
    ∀ node : Node, listAllMember pre node = (nodes pre node).filter kept
  | .map entries => by
      cases hpre : onlyOf memberAlphabet pre with
      | true =>
          have hkept : kept (pre, .map entries) = true := hpre
          rw [listAllMember, if_pos hpre, nodes, List.filter_cons_of_pos hkept,
            listEntries_eq pre entries]
      | false =>
          rw [filter_kept_nil hpre (prefix_nodes pre (.map entries)), listAllMember, hpre]
          rfl
  | .null => listAllMember_leaf (by simp)
  | .scalar text => listAllMember_leaf (by simp)
  | .sequence items => listAllMember_leaf (by simp)

theorem listEntries_eq (pre : Text) :
    ∀ entries : Entries, listEntries pre entries = (nodesOf pre entries).filter kept
  | .nil => by
      rw [listEntries, nodesOf]
      rfl
  | .cons key value rest => by
      rw [listEntries, nodesOf, List.filter_append, listAllMember_eq (join pre key) value,
        listEntries_eq pre rest]

end

/-! ## The two alphabets -/

theorem onlyOf_iff {alphabet name : Text} :
    onlyOf alphabet name = true ↔ ∀ c ∈ name, c ∈ alphabet := by
  simp [onlyOf]

theorem memberAlphabet_sub :
    ∀ c ∈ memberAlphabet, c ≠ '9' ∧ c.toLower = c ∧ c ∈ lookupAlphabet := by
  have hall : memberAlphabet.all
      (fun c => c != '9' && c.toLower == c && lookupAlphabet.contains c) = true := by decide +kernel
  intro c hc
  simpa [and_assoc] using List.all_eq_true.mp hall c hc

theorem lookupAlphabet_sub : ∀ c ∈ lookupAlphabet, c ≠ '9' → c ∈ memberAlphabet := by
  have hall : lookupAlphabet.all (fun c => c == '9' || memberAlphabet.contains c) = true := by
    decide +kernel
  intro c hc hne
  simpa [hne] using List.all_eq_true.mp hall c hc

/-- A path that passes the walk's check has no 9 and is in lower case. -/
theorem kept_lower {i : Text × Node} (h : kept i = true) : '9' ∉ i.1 ∧ lower i.1 = i.1 := by
  have hall := onlyOf_iff.mp h
  refine ⟨fun hmem => (memberAlphabet_sub _ (hall _ hmem)).1 rfl, ?_⟩
  rw [lower, List.map_congr_left fun c hc => (memberAlphabet_sub c (hall c hc)).2.1]
  exact List.map_id' _

theorem kept_of_lookup {i : Text × Node} (h : onlyOf lookupAlphabet i.1 = true)
    (hnine : '9' ∉ i.1) : kept i = true := by
  refine onlyOf_iff.mpr fun c hc => lookupAlphabet_sub c (onlyOf_iff.mp h c hc) ?_
  rintro rfl
  exact hnine hc

/-- A path that names a variable passes the check exactly if it has no 9 and is
in lower case. -/
theorem kept_iff {i : Text × Node} (h : onlyOf lookupAlphabet (lower i.1) = true) :
    kept i = true ↔ '9' ∉ i.1 ∧ lower i.1 = i.1 := by
  refine ⟨kept_lower, ?_⟩
  rintro ⟨hnine, hlower⟩
  rw [hlower] at h
  exact kept_of_lookup h hnine

/-! ## The calls -/

section Load

variable {τ : Type} {emit : Node → Text} {reg : Registry τ}

theorem filterMap_filter_eq_iff {α β : Type} (p : α → Bool) (f : α → Option β) :
    ∀ xs : List α, (xs.filter p).filterMap f = xs.filterMap f ↔
      ∀ x ∈ xs, (f x).isSome = true → p x = true
  | [] => by simp
  | x :: xs => by
      have ih := filterMap_filter_eq_iff p f xs
      cases hp : p x with
      | true =>
          rw [List.filter_cons_of_pos hp, List.forall_mem_cons, ← ih]
          cases hf : f x with
          | none => simp [List.filterMap_cons_none hf, hp]
          | some y => simp [List.filterMap_cons_some hf, hp]
      | false =>
          rw [List.filter_cons_of_neg (by simp [hp]), List.forall_mem_cons, ← ih]
          cases hf : f x with
          | none => simp [List.filterMap_cons_none hf]
          | some y =>
              -- a call is missing
              rw [List.filterMap_cons_some hf]
              refine iff_of_false (fun heq => ?_) (by simp [hp])
              have hle := ((List.filter_sublist (l := xs) (p := p)).filterMap f).length_le
              rw [heq, List.length_cons] at hle
              omega

theorem loadFromYaml_eq (root : Node) :
    loadFromYaml emit reg root =
      ((nodes [] root).filter fun i => kept i && !i.1.isEmpty).filterMap (callOf emit reg) := by
  rw [loadFromYaml, listAllMember_eq, List.filterMap_filter, List.filterMap_filter]
  refine List.filterMap_congr fun i _ => ?_
  cases kept i with
  | false => rfl
  | true =>
      by_cases hne : i.1 = []
      · simp [hne]
      · simp [hne, callOf]

/-- A call is made for a node that passes the check and is not the root. -/
theorem mem_loadFromYaml {root : Node} {c : Text × Text} :
    c ∈ loadFromYaml emit reg root ↔
      ∃ i ∈ nodes [] root, kept i = true ∧ i.1 ≠ [] ∧ callOf emit reg i = some c := by
  rw [loadFromYaml_eq, List.mem_filterMap]
  constructor
  · rintro ⟨i, hi, hcall⟩
    obtain ⟨hmem, hp⟩ := List.mem_filter.mp hi
    obtain ⟨hkept, hne⟩ := (Bool.and_eq_true _ _).mp hp
    exact ⟨i, hmem, hkept, by simpa using hne, hcall⟩
  · rintro ⟨i, hmem, hkept, hne, hcall⟩
    exact ⟨i, List.mem_filter.mpr ⟨hmem, by simp [hkept, hne]⟩, hcall⟩

theorem callOf_some {i : Text × Node} {c : Text × Text} (h : callOf emit reg i = some c) :
    reg.has (lower i.1) = true ∧ c = (lower i.1, textOf emit i.2) := by
  rw [callOf] at h
  split at h
  · rename_i hhas
    exact ⟨hhas, (Option.some.inj h).symm⟩
  · exact absurd h (by simp)

/-- The loader makes the expected calls exactly if no path that names a variable
is empty, has a 9 or is not in lower case. -/
theorem loadFromYaml_eq_expected (root : Node) :
    loadFromYaml emit reg root = expected emit reg root ↔
      ∀ i ∈ nodes [] root, reg.has (lower i.1) = true →
        i.1 ≠ [] ∧ '9' ∉ i.1 ∧ lower i.1 = i.1 := by
  rw [loadFromYaml_eq, expected, filterMap_filter_eq_iff]
  refine forall₂_congr fun i _ => ?_
  have hsome : (callOf emit reg i).isSome = true ↔ reg.has (lower i.1) = true := by
    rw [callOf]
    split <;> simp_all
  rw [hsome]
  refine imp_congr_right fun hhas => ?_
  rw [Bool.and_eq_true, kept_iff (Registry.has_named hhas)]
  simp [and_comm]

/-- A variable can be set exactly if its name is not empty and has no 9. -/
theorem reachable_iff {name : Text} (h : reg.has name = true) :
    (∃ root text, (name, text) ∈ loadFromYaml emit reg root) ↔ name ≠ [] ∧ '9' ∉ name := by
  constructor
  · rintro ⟨root, text, hmem⟩
    obtain ⟨i, -, hkept, hne, hcall⟩ := mem_loadFromYaml.mp hmem
    obtain ⟨hhas, heq⟩ := callOf_some hcall
    obtain ⟨hnine, hlower⟩ := (kept_iff (Registry.has_named hhas)).mp hkept
    obtain rfl : name = i.1 := (congrArg Prod.fst heq).trans hlower
    exact ⟨hne, hnine⟩
  · rintro ⟨hne, hnine⟩
    have hkept : kept (name, .scalar []) = true := kept_of_lookup (Registry.has_named h) hnine
    have hlower : lower name = name := (kept_lower hkept).2
    refine ⟨.map (.cons name (.scalar []) .nil), [],
      mem_loadFromYaml.mpr ⟨(name, .scalar []), ?_, hkept, hne, ?_⟩⟩
    · simp [nodes, nodesOf, join]
    · rw [callOf, hlower, if_pos h]
      rfl

/-- **Loading.**  The calls of `fromString` are those for the nodes whose
path, in lower case, names a variable, in pre-order, exactly if each such path is
not empty, has no 9 and is in lower case; and a variable can be set by some tree
exactly if its name is not empty and has no 9. -/
theorem loadFromYaml_correct_iff (emit : Node → Text) (reg : Registry τ) :
    (∀ root, loadFromYaml emit reg root = expected emit reg root ↔
      ∀ i ∈ nodes [] root, reg.has (lower i.1) = true →
        i.1 ≠ [] ∧ '9' ∉ i.1 ∧ lower i.1 = i.1) ∧
    ∀ name, reg.has name = true →
      ((∃ root text, (name, text) ∈ loadFromYaml emit reg root) ↔ name ≠ [] ∧ '9' ∉ name) :=
  ⟨loadFromYaml_eq_expected, fun _ => reachable_iff⟩

end Load

/-- A nested setting is handed to its variable. -/
theorem loadFromYaml_correct_nested :
    loadFromYaml (fun _ => []) ⟨[("tcp.port".toList, ())], by decide⟩
        (.map (.cons "tcp".toList (.map (.cons "port".toList (.scalar "80".toList) .nil)) .nil)) =
      expected (fun _ => []) ⟨[("tcp.port".toList, ())], by decide⟩
        (.map (.cons "tcp".toList (.map (.cons "port".toList (.scalar "80".toList) .nil)) .nil)) :=
  ((loadFromYaml_correct_iff _ _).1 _).mpr (by decide)

/-- A variable that `Lookup` accepts. -/
def portNine : Registry Unit :=
  { datas := [("port9".toList, ())], named := by decide }

/-- Its setting is ignored. -/
theorem loadFromYaml_ignores_nine :
    portNine.has "port9".toList = true ∧
    ¬ ∀ (emit : Node → Text) (reg : Registry Unit) (root : Node),
      loadFromYaml emit reg root = expected emit reg root := by
  refine ⟨by decide, fun h => ?_⟩
  have heq := h (fun _ => []) portNine (.map (.cons "port9".toList (.scalar "1".toList) .nil))
  have hload : loadFromYaml (fun _ => []) portNine
      (.map (.cons "port9".toList (.scalar "1".toList) .nil)) = [] := by decide
  have hwant : expected (fun _ => []) portNine
      (.map (.cons "port9".toList (.scalar "1".toList) .nil)) =
        [("port9".toList, "1".toList)] := by decide
  rw [hload, hwant] at heq
  exact absurd heq (by simp)

end CoLib.Config
