/-
# `CoLib.Log.Codec` — writing and reading the variable `logs`

`LexicalCast<std::set<LogDefine>, std::string>` builds a YAML tree from a set of
logger definitions and prints it; `LexicalCast<std::string, std::set<LogDefine>>`
loads the text and walks the tree.  Each of the two has its own conditions on
which fields it writes or reads.

The printer and the parser of yaml-cpp are parameters, `emit` and `load`; what is
used of them is that the parser reads back the tree that was printed.

**Proved here.**  `lexicalCast_eq_iff`: a set survives exactly if each of its
definitions has only fields that are both written and read.
-/
import CoLib.Log.Define
import Mathlib

/-! ## Nodes -/

namespace CoLib.Config

namespace Entries

/-- The value of a key. -/
def find (key : Text) : Entries → Option Node
  | .nil => none
  | .cons k v rest => if k = key then some v else rest.find key

/-- `node.size()`. -/
def size : Entries → Nat
  | .nil => 0
  | .cons _ _ rest => rest.size + 1

/-- The value of the first key that reads as the number `i`. -/
def findIndex (asIndex : Text → Option Nat) (i : Nat) : Entries → Option Node
  | .nil => none
  | .cons k v rest => if asIndex k = some i then some v else rest.findIndex asIndex i

/-- The entries with the value of a key replaced, or added at the end. -/
def put (key : Text) (value : Node) : Entries → Entries
  | .nil => .cons key value .nil
  | .cons k v rest => if k = key then .cons k value rest else .cons k v (rest.put key value)

theorem find_put (key key' : Text) (value : Node) (es : Entries) :
    (es.put key value).find key' = if key = key' then some value else es.find key' := by
  cases es with
  | nil => simp [put, find]
  | cons k v rest =>
      rw [put]
      by_cases hk : k = key
      · subst hk
        rw [if_pos rfl, find, find]
        split <;> rfl
      · rw [if_neg hk, find, find, find_put key key' value rest]
        by_cases hk' : k = key'
        · have hne : ¬ key = key' := fun heq => hk (hk'.trans heq.symm)
          rw [if_pos hk', if_pos hk', if_neg hne]
        · rw [if_neg hk', if_neg hk']

end Entries

namespace Node

/-- The value of a key, where there is one. -/
def find (key : Text) : Node → Option Node
  | .map entries => entries.find key
  | _ => none

/-- `node[key]`, `none` inside where it is not defined; a scalar throws. -/
def get (key : Text) : Node → Option (Option Node)
  | .scalar _ => none
  | node => some (node.find key)

/-- `node[key] = value`: a null node becomes a map. -/
def assign (node : Node) (key : Text) (value : Node) : Node :=
  match node with
  | .null => .map (.cons key value .nil)
  | .map entries => .map (entries.put key value)
  | node => node

/-- `node.push_back(value)`: a null node becomes a sequence. -/
def pushBack (node value : Node) : Node :=
  match node with
  | .null => .sequence [value]
  | .sequence items => .sequence (items ++ [value])
  | node => node

/-- Nodes that take an entry. -/
def Open : Node → Prop
  | .null | .map _ => True
  | _ => False

theorem open_null : Node.null.Open := trivial

theorem Open.assign {n : Node} (h : n.Open) (key : Text) (value : Node) :
    (n.assign key value).Open := by
  cases n with
  | null | map _ => trivial
  | scalar _ | sequence _ => exact h

theorem Open.get {n : Node} (h : n.Open) (key : Text) : n.get key = some (n.find key) := by
  cases n with
  | null | map _ => rfl
  | scalar _ | sequence _ => exact absurd h id

theorem Open.find_assign {n : Node} (h : n.Open) (key key' : Text) (value : Node) :
    (n.assign key value).find key' = if key = key' then some value else n.find key' := by
  cases n with
  | null => simp [Node.assign, find, Entries.find]
  | map entries => exact entries.find_put key key' value
  | scalar _ | sequence _ => exact absurd h id

/-- The node of a list: the null node when nothing is pushed. -/
def ofList : List Node → Node
  | [] => .null
  | items => .sequence items

theorem pushBack_ofList (value : Node) (items : List Node) :
    (ofList items).pushBack value = ofList (items ++ [value]) := by
  cases items with
  | nil => rfl
  | cons _ _ => rfl

end Node

/-- What the code uses of yaml-cpp. -/
structure Yaml where
  /-- `ss << node`. -/
  emit : Node → Text
  /-- `YAML::Load`; `none` where it throws. -/
  load : Text → Option Node
  /-- `node.as<std::string>()`; `none` where it throws. -/
  asString : Node → Option Text
  /-- The number that a key reads as. -/
  asIndex : Text → Option Nat
  asString_scalar : ∀ text, asString (.scalar text) = some text

/-- `node[0]`, …, `node[node.size() - 1]`; a map is asked for the keys that read
as these numbers. -/
def Yaml.elements (yaml : Yaml) : Node → List (Option Node)
  | .null | .scalar _ => []
  | .sequence items => items.map some
  | .map entries => (List.range entries.size).map (entries.findIndex yaml.asIndex)

theorem Yaml.elements_ofList (yaml : Yaml) (items : List Node) :
    yaml.elements (.ofList items) = items.map some := by
  cases items with
  | nil => rfl
  | cons _ _ => rfl

end CoLib.Config

namespace CoLib.Log

open Lib
open Config (Text Yaml)

/-! ## The source -/

namespace LogLevel

def INFO : LogLevel := 2
def WARN : LogLevel := 3
def ERROR : LogLevel := 4

/-- `LogLevel::ToString`. -/
def toString (level : LogLevel) : Text :=
  if level = DEBUG then "DEBUG".toList
  else if level = INFO then "INFO".toList
  else if level = WARN then "WARN".toList
  else if level = ERROR then "ERROR".toList
  else if level = FATAL then "FATAL".toList
  else "UNKNOW".toList

/-- `LogLevel::FromString`. -/
def fromString (str : Text) : LogLevel :=
  if str = "DEBUG".toList then DEBUG
  else if str = "INFO".toList then INFO
  else if str = "WARN".toList then WARN
  else if str = "ERROR".toList then ERROR
  else if str = "FATAL".toList then FATAL
  else UNKNOW

end LogLevel

/-- `n[key] = value` for a string. -/
def setScalar (key : String) (value : Text) (n : Config.Node) : Config.Node :=
  n.assign key.toList (.scalar value)

/-- The node `na` of an appender before its level. -/
def typeNode (a : LogAppenderDefine) : Config.Node :=
  if a.type = 1 then
    setScalar "file" a.file (setScalar "type" "FileLogAppender".toList .null)
  else if a.type = 2 then setScalar "type" "StdoutLogAppender".toList .null
  else .null

/-- The node `na` of an appender. -/
def appenderNode (a : LogAppenderDefine) : Config.Node :=
  let na := typeNode a
  let na :=
    if a.level ≠ LogLevel.UNKNOW then setScalar "level" (LogLevel.toString a.level) na else na
  if ¬ a.formatter.isEmpty then setScalar "formatter" a.formatter na else na

/-- The node `n` of a definition before its appenders. -/
def headNode (i : LogDefine) : Config.Node :=
  let n := setScalar "name" i.name .null
  let n :=
    if i.level ≠ LogLevel.UNKNOW then setScalar "level" (LogLevel.toString i.level) n else n
  -- the formatter is written when there is none
  if i.formatter.isEmpty then setScalar "formatter" i.formatter n else n

/-- `n["appenders"].push_back(na)`. -/
def pushAppender (n : Config.Node) (a : LogAppenderDefine) : Config.Node :=
  n.assign "appenders".toList
    (((n.find "appenders".toList).getD .null).pushBack (appenderNode a))

/-- The node `n` of a definition. -/
def defineNode (i : LogDefine) : Config.Node :=
  i.appenders.foldl pushAppender (headNode i)

/-- The tree that is printed. -/
def logsNode (v : LogSet) : Config.Node :=
  v.defs.foldl (fun node i => node.pushBack (defineNode i)) .null

/-- `vec.insert(ld)`. -/
def LogSet.insert (v : LogSet) (ld : LogDefine) : LogSet :=
  { defs := (OrderedSet.insert LogDefine.lt ld v.defs).1
    sorted := OrderedSet.sortedBy_insert (fun _ _ => by simp [LogDefine.lt]) v.sorted ld }

/-- The empty set. -/
def LogSet.empty : LogSet := { defs := [], sorted := List.Pairwise.nil }

section Yaml

variable (yaml : Yaml)

/-- `LexicalCast<std::set<LogDefine>, std::string>`. -/
def lexicalCastToString (v : LogSet) : Text :=
  yaml.emit (logsNode v)

/-- The body of the loop over `n["appenders"]`: the appender, or none where it is
skipped. -/
def readAppender : Option Config.Node → Option (Option LogAppenderDefine)
  | none => some none
  | some a => do
      let some typeNode ← a.get "type".toList | some none
      let type ← yaml.asString typeNode
      if type = "FileLogAppender".toList then
        let some fileNode ← a.get "file".toList | some none
        let file ← yaml.asString fileNode
        let some formatterNode ← a.get "formatter".toList
          | some (some ⟨1, LogLevel.UNKNOW, [], file⟩)
        let formatter ← yaml.asString formatterNode
        some (some ⟨1, LogLevel.UNKNOW, formatter, file⟩)
      else if type = "StdoutLogAppender".toList then
        some (some ⟨2, LogLevel.UNKNOW, [], []⟩)
      else some none

/-- `n[key]` as a string, empty when it is not defined. -/
def readString (key : String) (n : Config.Node) : Option Text := do
  let some node ← n.get key.toList | some []
  yaml.asString node

/-- The loop over `n["appenders"]`. -/
def readAppenders (n : Config.Node) : Option (List LogAppenderDefine) := do
  let some appenders ← n.get "appenders".toList | some []
  let read ← (yaml.elements appenders).mapM (readAppender yaml)
  some (read.filterMap id)

/-- The body of the loop over the nodes: the definition, or none where it is
skipped. -/
def readDefine : Option Config.Node → Option (Option LogDefine)
  | none => some none
  | some n => do
      let some nameNode ← n.get "name".toList | some none
      let name ← yaml.asString nameNode
      let level ← readString yaml "level" n
      let formatter ← readString yaml "formatter" n
      let appenders ← readAppenders yaml n
      some (some ⟨name, LogLevel.fromString level, formatter, appenders⟩)

/-- `LexicalCast<std::string, std::set<LogDefine>>`; `none` where it throws. -/
def lexicalCastFromString (v : Text) : Option LogSet := do
  let node ← yaml.load v
  let read ← (yaml.elements node).mapM (readDefine yaml)
  some ((read.filterMap id).foldl LogSet.insert .empty)

end Yaml

/-! ## What is read back -/

/-- The appender that is read from an appender's node, where one is. -/
def decodedAppender (a : LogAppenderDefine) : Option LogAppenderDefine :=
  if a.type = 1 then some ⟨1, LogLevel.UNKNOW, a.formatter, a.file⟩
  else if a.type = 2 then some ⟨2, LogLevel.UNKNOW, [], []⟩
  else none

/-- The definition that is read from a definition's node. -/
def decoded (i : LogDefine) : LogDefine :=
  { name := i.name
    level := LogLevel.fromString (LogLevel.toString i.level)
    formatter := []
    appenders := i.appenders.filterMap decodedAppender }

/-- The entry of a list: none when nothing is pushed. -/
def entryOf : List Config.Node → Option Config.Node
  | [] => none
  | items => some (.sequence items)

theorem entryOf_getD (items : List Config.Node) : (entryOf items).getD .null = .ofList items := by
  cases items with
  | nil => rfl
  | cons _ _ => rfl

theorem entryOf_append (items : List Config.Node) (item : Config.Node) :
    some (.ofList (items ++ [item])) = entryOf (items ++ [item]) := by
  cases items with
  | nil => rfl
  | cons _ _ => rfl

theorem setScalar_open {n : Config.Node} (h : n.Open) (key : String) (value : Text) :
    (setScalar key value n).Open :=
  h.assign ..

theorem setScalar_find {n : Config.Node} (h : n.Open) (key : String) (value key' : Text) :
    (setScalar key value n).find key' =
      if key.toList = key' then some (.scalar value) else n.find key' :=
  h.find_assign ..

/-- A string that is written under a condition. -/
theorem setIf_open {n : Config.Node} (h : n.Open) {c : Prop} [Decidable c] {key : String}
    {value : Text} : (if c then setScalar key value n else n).Open := by
  split
  · exact setScalar_open h ..
  · exact h

theorem setIf_find {n : Config.Node} (h : n.Open) {c : Prop} [Decidable c] {key : String}
    {value key' : Text} :
    (if c then setScalar key value n else n).find key' =
      if key.toList = key' ∧ c then some (.scalar value) else n.find key' := by
  by_cases hc : c
  · rw [if_pos hc, setScalar_find h]
    simp only [hc, and_true]
  · rw [if_neg hc, if_neg fun h => hc h.2]

/-- The entries of a definition's node before its appenders. -/
theorem headNode_spec (i : LogDefine) :
    (headNode i).Open ∧ ∀ key, (headNode i).find key =
      if "formatter".toList = key ∧ i.formatter.isEmpty then some (.scalar i.formatter)
      else if "level".toList = key ∧ i.level ≠ LogLevel.UNKNOW then
        some (.scalar (LogLevel.toString i.level))
      else if "name".toList = key then some (.scalar i.name) else none := by
  have hname : (setScalar "name" i.name .null).Open := setScalar_open Config.Node.open_null ..
  refine ⟨setIf_open (setIf_open hname), fun key => ?_⟩
  rw [headNode, setIf_find (setIf_open hname), setIf_find hname,
    setScalar_find Config.Node.open_null]
  rfl

/-- The entries of an appender's node. -/
theorem appenderNode_spec {a : LogAppenderDefine} (h : (typeNode a).Open) :
    (appenderNode a).Open ∧ ∀ key, (appenderNode a).find key =
      if "formatter".toList = key ∧ ¬ a.formatter.isEmpty then some (.scalar a.formatter)
      else if "level".toList = key ∧ a.level ≠ LogLevel.UNKNOW then
        some (.scalar (LogLevel.toString a.level))
      else (typeNode a).find key := by
  refine ⟨setIf_open (setIf_open h), fun key => ?_⟩
  rw [appenderNode, setIf_find (setIf_open h), setIf_find h]

/-- The appenders are pushed one after another, and no other entry changes. -/
theorem foldl_pushAppender :
    ∀ (as : List LogAppenderDefine) {n : Config.Node} {items : List Config.Node},
    n.Open → n.find "appenders".toList = entryOf items →
    (as.foldl pushAppender n).Open ∧
      (as.foldl pushAppender n).find "appenders".toList =
        entryOf (items ++ as.map appenderNode) ∧
      ∀ key, key ≠ "appenders".toList → (as.foldl pushAppender n).find key = n.find key
  | [], n, items, hopen, hn => ⟨hopen, by rw [List.map_nil, List.append_nil]; exact hn,
      fun _ _ => rfl⟩
  | a :: as, n, items, hopen, hn => by
      have hpush : ∀ key, (pushAppender n a).find key =
          if "appenders".toList = key then entryOf (items ++ [appenderNode a])
          else n.find key := by
        intro key
        rw [pushAppender, hopen.find_assign, hn, entryOf_getD, Config.Node.pushBack_ofList,
          entryOf_append]
      obtain ⟨hopen', happ, hrest⟩ := foldl_pushAppender as (hopen.assign _ _)
        ((hpush _).trans (if_pos rfl))
      rw [← pushAppender] at hopen' happ hrest
      refine ⟨hopen', ?_, fun key hkey => ?_⟩
      · rw [List.map_cons, List.append_cons]
        exact happ
      · rw [List.foldl_cons, hrest key hkey, hpush, if_neg (Ne.symm hkey)]

/-- Nodes pushed one after another. -/
theorem logsNode_eq (v : LogSet) : logsNode v = .ofList (v.defs.map defineNode) := by
  have hpush : ∀ (ds : List LogDefine) (items : List Config.Node),
      ds.foldl (fun (node : Config.Node) i => node.pushBack (defineNode i))
          (Config.Node.ofList items) =
        Config.Node.ofList (items ++ ds.map defineNode) := by
    intro ds
    induction ds with
    | nil =>
        intro items
        rw [List.map_nil, List.append_nil, List.foldl_nil]
    | cons d ds ih =>
        intro items
        rw [List.foldl_cons, Config.Node.pushBack_ofList, ih, List.map_cons, ← List.append_cons]
  exact hpush v.defs []

/-- Reading what was written element by element. -/
theorem mapM_map_some {α β γ : Type} {write : α → β} {read : β → Option γ} {back : α → γ}
    (h : ∀ x, read (write x) = some (back x)) :
    ∀ xs : List α, (xs.map write).mapM read = some (xs.map back)
  | [] => rfl
  | x :: xs => by
      rw [List.map_cons, List.mapM_cons, h, mapM_map_some h xs]
      rfl

/-! ## Reading what was written -/

section Yaml

variable (yaml : Yaml)

/-- The type of an appender's node. -/
theorem typeNode_spec (a : LogAppenderDefine) :
    (typeNode a).Open ∧
      (typeNode a).find "type".toList =
        (if a.type = 1 then some (.scalar "FileLogAppender".toList)
        else if a.type = 2 then some (.scalar "StdoutLogAppender".toList) else none) ∧
      (a.type = 1 → (typeNode a).find "file".toList = some (.scalar a.file)) ∧
      (typeNode a).find "formatter".toList = none := by
  have hfile := setScalar_open Config.Node.open_null "type" "FileLogAppender".toList
  rw [typeNode]
  by_cases h1 : a.type = 1
  · simp only [if_pos h1]
    refine ⟨setScalar_open hfile .., ?_, fun _ => ?_, ?_⟩
    · rw [setScalar_find hfile, if_neg (by decide), setScalar_find Config.Node.open_null,
        if_pos rfl]
    · rw [setScalar_find hfile, if_pos rfl]
    · rw [setScalar_find hfile, if_neg (by decide), setScalar_find Config.Node.open_null,
        if_neg (by decide)]
      rfl
  · simp only [if_neg h1]
    refine ⟨setIf_open Config.Node.open_null, ?_, fun h => absurd h h1, ?_⟩
    · rw [setIf_find Config.Node.open_null]
      by_cases h2 : a.type = 2
      · rw [if_pos ⟨rfl, h2⟩, if_pos h2]
      · rw [if_neg fun h => h2 h.2, if_neg h2]
        rfl
    · rw [setIf_find Config.Node.open_null, if_neg fun h => absurd h.1 (by decide)]
      rfl

theorem readAppender_appenderNode (a : LogAppenderDefine) :
    readAppender yaml (some (appenderNode a)) = some (decodedAppender a) := by
  obtain ⟨htype, hty, hfile, hfmt⟩ := typeNode_spec a
  obtain ⟨hopen, hfind⟩ := appenderNode_spec htype
  have hty : (appenderNode a).find "type".toList =
      if a.type = 1 then some (.scalar "FileLogAppender".toList)
      else if a.type = 2 then some (.scalar "StdoutLogAppender".toList) else none := by
    rw [hfind, if_neg fun h => absurd h.1 (by decide), if_neg fun h => absurd h.1 (by decide)]
    exact hty
  have hfmt : (appenderNode a).find "formatter".toList =
      if a.formatter.isEmpty then none else some (.scalar a.formatter) := by
    rw [hfind]
    by_cases he : a.formatter.isEmpty
    · rw [if_neg fun h => h.2 he, if_neg fun h => absurd h.1 (by decide), hfmt, if_pos he]
    · rw [if_pos ⟨rfl, he⟩, if_neg he]
  simp only [readAppender, hopen.get, hty, hfmt, decodedAppender]
  by_cases h1 : a.type = 1
  · have hfile : (appenderNode a).find "file".toList = some (.scalar a.file) := by
      rw [hfind, if_neg fun h => absurd h.1 (by decide), if_neg fun h => absurd h.1 (by decide)]
      exact hfile h1
    simp only [if_pos h1, hfile, Option.bind_eq_bind, Option.bind_some, yaml.asString_scalar]
    rw [if_true]
    by_cases he : a.formatter.isEmpty
    · rw [if_pos he, List.isEmpty_iff.mp he]
    · simp only [if_neg he, yaml.asString_scalar, Option.bind_some]
  · simp only [if_neg h1, Option.bind_eq_bind, Option.bind_some]
    by_cases h2 : a.type = 2
    · simp only [if_pos h2, yaml.asString_scalar, Option.bind_some]
      rw [if_neg (by decide), if_true]
    · simp only [if_neg h2]

/-- The entries of a definition's node. -/
theorem defineNode_spec (i : LogDefine) :
    (defineNode i).Open ∧
      (defineNode i).find "appenders".toList = entryOf (i.appenders.map appenderNode) ∧
      ∀ key, key ≠ "appenders".toList → (defineNode i).find key = (headNode i).find key := by
  obtain ⟨hopen, hhead⟩ := headNode_spec i
  have hnone : (headNode i).find "appenders".toList = entryOf [] := by
    rw [hhead, if_neg fun h => absurd h.1 (by decide), if_neg fun h => absurd h.1 (by decide),
      if_neg (by decide)]
    rfl
  exact foldl_pushAppender i.appenders hopen hnone

theorem readAppenders_defineNode (i : LogDefine) :
    readAppenders yaml (defineNode i) = some (i.appenders.filterMap decodedAppender) := by
  obtain ⟨hopen, happ, -⟩ := defineNode_spec i
  rw [readAppenders, hopen.get, happ]
  cases i.appenders with
  | nil => rfl
  | cons a as =>
      have hread := mapM_map_some (readAppender_appenderNode yaml) (a :: as)
      rw [← Function.comp_def, ← List.map_map] at hread
      show ((((a :: as).map appenderNode).map some).mapM (readAppender yaml)).bind _ = _
      rw [hread, Option.bind_some, List.filterMap_map, Function.id_comp]

theorem readDefine_defineNode (i : LogDefine) :
    readDefine yaml (some (defineNode i)) = some (some (decoded i)) := by
  obtain ⟨-, hhead⟩ := headNode_spec i
  obtain ⟨hopen, -, hrest⟩ := defineNode_spec i
  have hname : (defineNode i).find "name".toList = some (.scalar i.name) := by
    rw [hrest _ (by decide), hhead, if_neg fun h => absurd h.1 (by decide),
      if_neg fun h => absurd h.1 (by decide), if_pos rfl]
  have hlevel : readString yaml "level" (defineNode i) =
      some (if i.level ≠ LogLevel.UNKNOW then LogLevel.toString i.level else []) := by
    rw [readString, hopen.get, hrest _ (by decide), hhead,
      if_neg fun h => absurd h.1 (by decide)]
    by_cases hl : i.level ≠ LogLevel.UNKNOW
    · rw [if_pos ⟨rfl, hl⟩, if_pos hl]
      exact yaml.asString_scalar _
    · rw [if_neg fun h => hl h.2, if_neg (by decide), if_neg hl]
      rfl
  have hformatter : readString yaml "formatter" (defineNode i) = some [] := by
    rw [readString, hopen.get, hrest _ (by decide), hhead]
    by_cases he : i.formatter.isEmpty
    · rw [if_pos ⟨rfl, he⟩, List.isEmpty_iff.mp he]
      exact yaml.asString_scalar []
    · rw [if_neg fun h => he h.2, if_neg fun h => absurd h.1 (by decide), if_neg (by decide)]
      rfl
  simp only [readDefine, hopen.get, hname, hlevel, hformatter, readAppenders_defineNode,
    Option.bind_eq_bind, Option.bind_some, yaml.asString_scalar, decoded]
  by_cases hl : i.level ≠ LogLevel.UNKNOW
  · rw [if_pos hl]
  · rw [if_neg hl, not_not.mp hl]
    rfl

/-- What a printed set is read as: every definition changed by itself. -/
theorem lexicalCastFromString_toString {v : LogSet}
    (hyaml : yaml.load (yaml.emit (logsNode v)) = some (logsNode v)) :
    (lexicalCastFromString yaml (lexicalCastToString yaml v)).map LogSet.defs =
      some (v.defs.map decoded) := by
  have hread := mapM_map_some (readDefine_defineNode yaml) v.defs
  rw [← Function.comp_def, ← List.map_map] at hread
  have hinsert : ∀ (ds : List LogDefine) (w : LogSet), (ds.foldl LogSet.insert w).defs =
      ds.foldl (fun xs d => (OrderedSet.insert LogDefine.lt d xs).1) w.defs := by
    intro ds
    induction ds with
    | nil => exact fun _ => rfl
    | cons d ds ih => exact fun w => ih _
  have hsorted : OrderedSet.SortedBy LogDefine.name ([] ++ v.defs.map decoded) :=
    List.pairwise_map.mpr v.sorted
  rw [lexicalCastFromString, lexicalCastToString, hyaml, logsNode_eq]
  show Option.map _ (((yaml.elements (.ofList (v.defs.map defineNode))).mapM
    (readDefine yaml)).bind _) = _
  have hkept : ((v.defs.map fun i => some (decoded i)).filterMap id) = v.defs.map decoded := by
    rw [List.filterMap_map, Function.id_comp]
    exact congrFun List.filterMap_eq_map' _
  rw [yaml.elements_ofList, hread, Option.bind_some, Option.map_some, hkept, hinsert]
  exact congrArg some (OrderedSet.foldl_insert (fun _ _ => by simp [LogDefine.lt]) _ _ hsorted)

end Yaml

/-! ## What survives -/

theorem fromString_toString_iff (level : LogLevel) :
    LogLevel.fromString (LogLevel.toString level) = level ↔ level ≤ LogLevel.FATAL := by
  constructor
  · intro h
    have hbound : ∀ str, LogLevel.fromString str ≤ LogLevel.FATAL := by
      intro str
      rw [LogLevel.fromString]
      split_ifs <;> decide
    exact h ▸ hbound _
  · intro h
    have hlevel : level < 6 := Nat.lt_succ_of_le h
    interval_cases level <;> rfl

/-- A list is kept by a partial map exactly if each element is. -/
theorem filterMap_eq_self_iff {α : Type} {f : α → Option α} :
    ∀ {xs : List α}, xs.filterMap f = xs ↔ ∀ x ∈ xs, f x = some x
  | [] => by simp
  | x :: xs => by
      cases hx : f x with
      | none =>
          rw [List.filterMap_cons_none hx]
          constructor
          · intro h
            have hle := List.length_filterMap_le f xs
            rw [h, List.length_cons] at hle
            omega
          · intro h
            exact absurd (hx.symm.trans (h x List.mem_cons_self)) nofun
      | some y =>
          rw [List.filterMap_cons_some hx, List.cons.injEq, filterMap_eq_self_iff,
            List.forall_mem_cons, hx, Option.some_inj]

/-- Every field of an appender's definition is both written and read: the level never
is read, the formatter and the file only for a file. -/
def LogAppenderDefine.Plain (a : LogAppenderDefine) : Prop :=
  (a.type = 1 ∧ a.level = LogLevel.UNKNOW) ∨
    (a.type = 2 ∧ a.level = LogLevel.UNKNOW ∧ a.formatter = [] ∧ a.file = [])

theorem decodedAppender_eq_iff (a : LogAppenderDefine) :
    decodedAppender a = some a ↔ a.Plain := by
  obtain ⟨type, level, formatter, file⟩ := a
  rw [decodedAppender, LogAppenderDefine.Plain]
  by_cases h1 : type = 1
  · subst h1
    simp [eq_comm]
  · by_cases h2 : type = 2
    · subst h2
      simp [eq_comm]
    · simp [h1, h2]

/-- Every field of a definition is both written and read: a formatter that is there is
not written. -/
def LogDefine.Plain (i : LogDefine) : Prop :=
  i.formatter = [] ∧ i.level ≤ LogLevel.FATAL ∧ ∀ a ∈ i.appenders, a.Plain

theorem decoded_eq_iff (i : LogDefine) : decoded i = i ↔ i.Plain := by
  obtain ⟨name, level, formatter, appenders⟩ := i
  rw [decoded, LogDefine.Plain]
  simp only [LogDefine.mk.injEq, true_and, fromString_toString_iff, filterMap_eq_self_iff,
    decodedAppender_eq_iff]
  constructor
  · rintro ⟨hlevel, hformatter, happ⟩
    exact ⟨hformatter.symm, hlevel, happ⟩
  · rintro ⟨hformatter, hlevel, happ⟩
    exact ⟨hlevel, hformatter.symm, happ⟩

/-- A set survives printing and reading exactly if every definition has only
fields that are both written and read. -/
theorem lexicalCast_eq_iff (yaml : Yaml) (v : LogSet)
    (hyaml : yaml.load (yaml.emit (logsNode v)) = some (logsNode v)) :
    lexicalCastFromString yaml (lexicalCastToString yaml v) = some v ↔
      ∀ i ∈ v.defs, i.Plain := by
  have hread := lexicalCastFromString_toString yaml hyaml
  have hself : v.defs.map decoded = v.defs ↔ ∀ i ∈ v.defs, i.Plain := by
    conv_lhs => rhs; rw [← List.map_id v.defs]
    simp only [List.map_inj_left, id_eq, decoded_eq_iff]
  obtain ⟨w, hw, hdefs⟩ := Option.map_eq_some_iff.mp hread
  refine Iff.trans ?_ hself
  rw [hw, Option.some_inj, ← hdefs]
  constructor
  · rintro rfl
    rfl
  · intro h
    cases w
    cases v
    congr

/-- A yaml-cpp that prints one tree as one text and reads the text as the tree. -/
def printing (text : Text) (node : Config.Node) : Yaml :=
  { emit            := fun _ => text
    load            := fun v => if v = text then some node else none
    asString        := fun
      | .scalar text => some text
      | _ => none
    asIndex         := fun _ => none
    asString_scalar := fun _ => rfl }

theorem load_emit_printing (text : Text) (node : Config.Node) :
    (printing text node).load ((printing text node).emit node) = some node :=
  if_pos rfl

/-- The logger `root`, with a file and the console. -/
def rootOnly : LogSet :=
  { defs   := [⟨"root".toList, LogLevel.INFO, [],
                [⟨1, LogLevel.UNKNOW, "%m%n".toList, "root.txt".toList⟩,
                  ⟨2, LogLevel.UNKNOW, [], []⟩]⟩]
    sorted := List.pairwise_singleton .. }

/-- The text that is printed for it. -/
def rootText : Text :=
  ("- name: root\n  level: INFO\n  formatter: \"\"\n  appenders:\n" ++
    "    - type: FileLogAppender\n      file: root.txt\n      formatter: \"%m%n\"\n" ++
    "    - type: StdoutLogAppender").toList

theorem lexicalCast_eq_iff_root :
    lexicalCastFromString (printing rootText (logsNode rootOnly))
      (lexicalCastToString (printing rootText (logsNode rootOnly)) rootOnly) = some rootOnly := by
  refine (lexicalCast_eq_iff _ rootOnly (load_emit_printing ..)).mpr ?_
  simp [rootOnly, LogDefine.Plain, LogAppenderDefine.Plain, LogLevel.INFO, LogLevel.FATAL]

/-- The logger `root` with a formatter of its own. -/
def rootFormatted : LogSet :=
  { defs   := [⟨"root".toList, LogLevel.INFO, "%m%n".toList, [⟨2, LogLevel.UNKNOW, [], []⟩]⟩]
    sorted := List.pairwise_singleton .. }

/-- The text that is printed for it. -/
def rootFormattedText : Text :=
  "- name: root\n  level: INFO\n  appenders:\n    - type: StdoutLogAppender".toList

/-- The formatter of a logger is lost. -/
theorem lexicalCast_formatter_lost :
    (printing rootFormattedText (logsNode rootFormatted)).load
        ((printing rootFormattedText (logsNode rootFormatted)).emit (logsNode rootFormatted)) =
        some (logsNode rootFormatted) ∧
      lexicalCastFromString (printing rootFormattedText (logsNode rootFormatted))
        (lexicalCastToString (printing rootFormattedText (logsNode rootFormatted))
          rootFormatted) ≠ some rootFormatted := by
  have hload := load_emit_printing rootFormattedText (logsNode rootFormatted)
  refine ⟨hload, fun h => ?_⟩
  have hread := lexicalCastFromString_toString _ hload
  rw [h, Option.map_some, Option.some_inj] at hread
  revert hread
  decide

end CoLib.Log
