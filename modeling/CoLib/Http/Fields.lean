/-
# `CoLib.Http.Fields` — the three maps of a request

`HttpRequest` keeps its headers, its parameters and its cookies in three maps
whose comparator does not tell capitals from small letters.  The functions of one
kind are one function, each on a map of its own; `HttpResponse` has those for the
headers.

What a caller may think of is three tables from names, up to case, to the
spelling that came first and the last value.

**Proved here.**  `answers_iff_tables`: every sequence of calls is answered as the
tables answer it, and leaves the one triple of maps that holds those tables.
-/
import CoLib.Lib.OrderedMap
import CoLib.Lib.Run
import CoLib.Http.Dump

namespace CoLib.Http

open Lib

/-! ## The source -/

/-- `MapType`: a `std::map` ordered by `CaseInsensitiveLess`, in its order. -/
structure MapType where
  entries : List (List UInt8 × List UInt8)
  sorted : OrderedSet.SortedBy headerKey entries

/-- What the comparator reads of a name. -/
def nameKey (name : List UInt8) : List Nat :=
  headerKey (name, [])

namespace MapType

/-- A new map. -/
def empty : MapType :=
  ⟨[], List.Pairwise.nil⟩

/-- `m.find(key)`, and `it->second` where there is one. -/
def find (m : MapType) (key : List UInt8) : Option (List UInt8) :=
  (OrderedSet.find HttpRequest.headerLess (key, []) m.entries).bind fun it =>
    m.entries[it]?.map Prod.snd

/-- `m[key] = val`. -/
def assign (m : MapType) (key val : List UInt8) : MapType where
  entries := OrderedMap.assign HttpRequest.headerLess (key, []) (fun e => (e.1, val)) m.entries
  sorted := OrderedMap.sortedBy_assign headerLess_iff m.sorted fun _ => rfl

/-- `m.erase(key)`. -/
def erase (m : MapType) (key : List UInt8) : MapType where
  entries := OrderedMap.erase HttpRequest.headerLess (key, []) m.entries
  sorted := OrderedMap.sortedBy_erase m.sorted

/-- `it == m.end() ? def : it->second`. -/
def get (m : MapType) (key dflt : List UInt8) : List UInt8 :=
  (m.find key).getD dflt

/-- Whether the key is there.  `val` is what the pointer points to, `none` for a
null pointer. -/
def has (m : MapType) (key : List UInt8) (val : Option (List UInt8)) :
    Bool × Option (List UInt8) :=
  match m.find key with
  | none => (false, val)
  | some v => (true, val.map fun _ => v)

variable {T : Type}

/-- `getAs<T>`.  The conversion is boost's: `none` where `lexical_cast` throws. -/
def getAs (lexicalCast : List UInt8 → Option T) (m : MapType) (key : List UInt8) (dflt : T) : T :=
  match m.find key with
  | none => dflt
  | some v => (lexicalCast v).getD dflt

/-- `checkGetAs<T>`: the return value and `val`. -/
def checkGetAs (lexicalCast : List UInt8 → Option T) (m : MapType) (key : List UInt8) (dflt : T) :
    Bool × T :=
  match m.find key with
  | none => (false, dflt)
  | some v =>
      match lexicalCast v with
      | some t => (true, t)
      | none => (false, dflt)

end MapType

/-- Which of the maps. -/
inductive FieldMap where
  | headers
  | params
  | cookies
  deriving DecidableEq, Repr

/-- `m_headers`, `m_params` and `m_cookies`. -/
structure FieldMaps where
  headers : MapType := .empty
  params : MapType := .empty
  cookies : MapType := .empty

namespace FieldMaps

variable {T : Type}

def map (r : FieldMaps) : FieldMap → MapType
  | .headers => r.headers
  | .params => r.params
  | .cookies => r.cookies

def setMap (w : FieldMap) (m : MapType) (r : FieldMaps) : FieldMaps :=
  match w with
  | .headers => { r with headers := m }
  | .params => { r with params := m }
  | .cookies => { r with cookies := m }

def get (w : FieldMap) (key dflt : List UInt8) (r : FieldMaps) : List UInt8 :=
  (r.map w).get key dflt

def getHeader : List UInt8 → List UInt8 → FieldMaps → List UInt8 := get .headers
def getParam : List UInt8 → List UInt8 → FieldMaps → List UInt8 := get .params
def getCookie : List UInt8 → List UInt8 → FieldMaps → List UInt8 := get .cookies

def set (w : FieldMap) (key val : List UInt8) (r : FieldMaps) : FieldMaps :=
  r.setMap w ((r.map w).assign key val)

def setHeader : List UInt8 → List UInt8 → FieldMaps → FieldMaps := set .headers
def setParam : List UInt8 → List UInt8 → FieldMaps → FieldMaps := set .params
def setCookie : List UInt8 → List UInt8 → FieldMaps → FieldMaps := set .cookies

def del (w : FieldMap) (key : List UInt8) (r : FieldMaps) : FieldMaps :=
  r.setMap w ((r.map w).erase key)

def delHeader : List UInt8 → FieldMaps → FieldMaps := del .headers
def delParam : List UInt8 → FieldMaps → FieldMaps := del .params
def delCookie : List UInt8 → FieldMaps → FieldMaps := del .cookies

def has (w : FieldMap) (key : List UInt8) (val : Option (List UInt8)) (r : FieldMaps) :
    Bool × Option (List UInt8) :=
  (r.map w).has key val

def hasHeader : List UInt8 → Option (List UInt8) → FieldMaps → Bool × Option (List UInt8) :=
  has .headers
def hasParam : List UInt8 → Option (List UInt8) → FieldMaps → Bool × Option (List UInt8) :=
  has .params
def hasCookie : List UInt8 → Option (List UInt8) → FieldMaps → Bool × Option (List UInt8) :=
  has .cookies

def getAs (w : FieldMap) (lexicalCast : List UInt8 → Option T) (key : List UInt8) (dflt : T)
    (r : FieldMaps) : T :=
  (r.map w).getAs lexicalCast key dflt

def getHeaderAs : (List UInt8 → Option T) → List UInt8 → T → FieldMaps → T := getAs .headers
def getParamAs : (List UInt8 → Option T) → List UInt8 → T → FieldMaps → T := getAs .params
def getCookieAs : (List UInt8 → Option T) → List UInt8 → T → FieldMaps → T := getAs .cookies

def checkGetAs (w : FieldMap) (lexicalCast : List UInt8 → Option T) (key : List UInt8) (dflt : T)
    (r : FieldMaps) : Bool × T :=
  (r.map w).checkGetAs lexicalCast key dflt

def checkGetHeaderAs : (List UInt8 → Option T) → List UInt8 → T → FieldMaps → Bool × T :=
  checkGetAs .headers
def checkGetParamAs : (List UInt8 → Option T) → List UInt8 → T → FieldMaps → Bool × T :=
  checkGetAs .params
def checkGetCookieAs : (List UInt8 → Option T) → List UInt8 → T → FieldMaps → Bool × T :=
  checkGetAs .cookies

def setHeaders : MapType → FieldMaps → FieldMaps := setMap .headers
def setParams : MapType → FieldMaps → FieldMaps := setMap .params
def setCookies : MapType → FieldMaps → FieldMaps := setMap .cookies

end FieldMaps

/-- A call of one kind on one of the maps. -/
inductive FieldCall (T : Type) where
  | get (w : FieldMap) (key dflt : List UInt8)
  | set (w : FieldMap) (key val : List UInt8)
  | del (w : FieldMap) (key : List UInt8)
  | has (w : FieldMap) (key : List UInt8) (val : Option (List UInt8))
  | getAs (w : FieldMap) (key : List UInt8) (dflt : T)
  | checkGetAs (w : FieldMap) (key : List UInt8) (dflt : T)
  | setMap (w : FieldMap) (m : MapType)

/-- What a call answers. -/
inductive FieldAnswer (T : Type) where
  | done
  | text (v : List UInt8)
  | found (there : Bool) (val : Option (List UInt8))
  | value (v : T)
  | checked (there : Bool) (val : T)
  deriving DecidableEq, Repr

section Calls

variable {T : Type} (lexicalCast : List UInt8 → Option T)

/-- One call. -/
def FieldMaps.exec (r : FieldMaps) : FieldCall T → FieldMaps × FieldAnswer T
  | .get w key dflt => (r, .text (r.get w key dflt))
  | .set w key val => (r.set w key val, .done)
  | .del w key => (r.del w key, .done)
  | .has w key val => (r, .found (r.has w key val).1 (r.has w key val).2)
  | .getAs w key dflt => (r, .value (r.getAs w lexicalCast key dflt))
  | .checkGetAs w key dflt =>
      (r, .checked (r.checkGetAs w lexicalCast key dflt).1 (r.checkGetAs w lexicalCast key dflt).2)
  | .setMap w m => (r.setMap w m, .done)

/-! ## The tables -/

/-- From names, up to case, to the spelling that came first and the value. -/
abbrev FieldTable := List Nat → Option (List UInt8 × List UInt8)

/-- The three tables. -/
abbrev FieldTables := FieldMap → FieldTable

/-- The value for a name. -/
def FieldTable.value (t : FieldTable) (key : List UInt8) : Option (List UInt8) :=
  (t (nameKey key)).map Prod.snd

/-- A value for a name.  The spelling stays where there is one. -/
def FieldTable.put (t : FieldTable) (key val : List UInt8) : FieldTable :=
  Function.update t (nameKey key) (some (((t (nameKey key)).map Prod.fst).getD key, val))

/-- No value for a name. -/
def FieldTable.remove (t : FieldTable) (key : List UInt8) : FieldTable :=
  Function.update t (nameKey key) none

def MapType.table (m : MapType) : FieldTable :=
  OrderedMap.entryOf headerKey m.entries

/-- What a call means for the tables. -/
def FieldTables.exec (t : FieldTables) : FieldCall T → FieldTables × FieldAnswer T
  | .get w key dflt => (t, .text ((FieldTable.value (t w) key).getD dflt))
  | .set w key val => (Function.update t w (FieldTable.put (t w) key val), .done)
  | .del w key => (Function.update t w (FieldTable.remove (t w) key), .done)
  | .has w key val =>
      match FieldTable.value (t w) key with
      | none => (t, .found false val)
      | some v => (t, .found true (val.map fun _ => v))
  | .getAs w key dflt =>
      (t, .value (((FieldTable.value (t w) key).bind lexicalCast).getD dflt))
  | .checkGetAs w key dflt =>
      match (FieldTable.value (t w) key).bind lexicalCast with
      | none => (t, .checked false dflt)
      | some v => (t, .checked true v)
  | .setMap w m => (Function.update t w m.table, .done)

def FieldMaps.tables (r : FieldMaps) : FieldTables :=
  fun w => (r.map w).table

end Calls

/-! ## A map and its table -/

namespace MapType

variable {m m' : MapType} {key val : List UInt8}

theorem find_eq (m : MapType) (key : List UInt8) : m.find key = FieldTable.value m.table key := by
  have hread := OrderedMap.find_getElem headerLess_iff m.sorted (key, [])
  rw [FieldTable.value, table, nameKey, ← hread, find, Option.map_bind]
  rfl

theorem table_assign (m : MapType) (key val : List UInt8) :
    (m.assign key val).table = FieldTable.put m.table key val := by
  have hput := OrderedMap.entryOf_assign headerLess_iff m.sorted (x := (key, []))
    (f := fun e => (e.1, val)) fun _ => rfl
  refine hput.trans ?_
  show Function.update m.table (nameKey key) _ = _
  rw [FieldTable.put]
  show Function.update m.table (nameKey key)
    (some (((m.table (nameKey key)).getD (key, [])).1, val)) = _
  cases m.table (nameKey key) with
  | none => rfl
  | some e => rfl

theorem table_erase (m : MapType) (key : List UInt8) :
    (m.erase key).table = FieldTable.remove m.table key :=
  OrderedMap.entryOf_erase headerLess_iff m.sorted

/-- A map is the only one with its table. -/
theorem table_injective (h : m.table = m'.table) : m = m' := by
  obtain ⟨entries, sorted⟩ := m
  obtain ⟨entries', sorted'⟩ := m'
  have heq : entries = entries' := OrderedMap.eq_of_entryOf sorted sorted' fun k => congrFun h k
  subst heq
  rfl

end MapType

/-! ### The headers of the request object -/

namespace HttpRequest

variable {r : HttpRequest} {m : MapType}

theorem findHeader_eq (h : r.headers = m.entries) (key : List UInt8) :
    r.findHeader key = m.find key := by
  rw [findHeader, h]
  rfl

theorem setHeader_eq (h : r.headers = m.entries) (key val : List UInt8) :
    r.setHeader key val = { r with headers := (m.assign key val).entries } := by
  show { r with headers := assignHeader r.headers (key, val) } = _
  rw [h]
  rfl

/-- A value that is set is found under every spelling of the name, and the others stay. -/
theorem findHeader_setHeader (h : r.headers = m.entries) (key val name : List UInt8) :
    (r.setHeader key val).findHeader name =
      if nameKey name = nameKey key then some val else r.findHeader name := by
  have hset : (r.setHeader key val).headers = (m.assign key val).entries := by
    rw [setHeader_eq h]
  rw [findHeader_eq hset, findHeader_eq h, MapType.find_eq, MapType.find_eq, FieldTable.value,
    MapType.table_assign, FieldTable.put]
  split
  · rename_i hname
    rw [hname, Function.update_self]
    rfl
  · rename_i hname
    rw [Function.update_of_ne hname]
    rfl

end HttpRequest

/-! ## The maps of a request -/

namespace FieldMaps

variable {T : Type} {lexicalCast : List UInt8 → Option T} {r r' : FieldMaps}

/-- A new map at one of the three places. -/
theorem tables_setMap (w : FieldMap) (m : MapType) (r : FieldMaps) :
    (r.setMap w m).tables = Function.update r.tables w m.table := by
  funext v
  rcases eq_or_ne v w with rfl | hne
  · rw [Function.update_self]
    cases v <;> rfl
  · rw [Function.update_of_ne hne]
    cases v <;> cases w <;> first | rfl | exact absurd rfl hne

/-- The maps are the only ones with their tables. -/
theorem tables_injective (h : r.tables = r'.tables) : r = r' := by
  have hmap : ∀ w, r.map w = r'.map w := fun w => MapType.table_injective (congrFun h w)
  obtain ⟨headers, params, cookies⟩ := r
  obtain ⟨headers', params', cookies'⟩ := r'
  obtain rfl : headers = headers' := hmap .headers
  obtain rfl : params = params' := hmap .params
  obtain rfl : cookies = cookies' := hmap .cookies
  rfl

/-- One call, on the maps and on their tables. -/
theorem exec_tables (r : FieldMaps) (c : FieldCall T) :
    FieldTables.exec lexicalCast r.tables c =
      ((r.exec lexicalCast c).1.tables, (r.exec lexicalCast c).2) := by
  have hfind : ∀ w key, FieldTable.value (r.tables w) key = (r.map w).find key :=
    fun w key => ((r.map w).find_eq key).symm
  cases c with
  | get w key dflt =>
      rw [FieldTables.exec, hfind]
      rfl
  | set w key val =>
      show _ = ((r.setMap w ((r.map w).assign key val)).tables, _)
      rw [tables_setMap, MapType.table_assign]
      rfl
  | del w key =>
      show _ = ((r.setMap w ((r.map w).erase key)).tables, _)
      rw [tables_setMap, MapType.table_erase]
      rfl
  | has w key val =>
      rw [FieldTables.exec, hfind, exec, has, MapType.has]
      cases (r.map w).find key with
      | none => rfl
      | some v => rfl
  | getAs w key dflt =>
      rw [FieldTables.exec, hfind, exec, getAs, MapType.getAs]
      cases (r.map w).find key with
      | none => rfl
      | some v => rfl
  | checkGetAs w key dflt =>
      rw [FieldTables.exec, hfind, exec, checkGetAs, MapType.checkGetAs]
      cases (r.map w).find key with
      | none => rfl
      | some v =>
          simp only [Option.bind_some]
          cases lexicalCast v with
          | none => rfl
          | some t => rfl
  | setMap w m =>
      show _ = ((r.setMap w m).tables, _)
      rw [tables_setMap]
      rfl

/-- A sequence of calls is answered as by the tables, and the maps after it are the only
ones that hold the tables after it. -/
theorem answers_iff_tables (calls : List (FieldCall T)) (r : FieldMaps) :
    (answers (exec lexicalCast) r calls).2 =
        (answers (FieldTables.exec lexicalCast) r.tables calls).2 ∧
      ∀ r', r'.tables = (answers (FieldTables.exec lexicalCast) r.tables calls).1 ↔
        r' = (answers (exec lexicalCast) r calls).1 := by
  rw [answers_view tables exec_tables]
  refine ⟨rfl, fun r' => ⟨fun h => tables_injective h, ?_⟩⟩
  rintro rfl
  rfl

/-- Two spellings of one name in two maps: the first spelling stays, with the last value,
and the other map has its own. -/
example :
    (answers (exec fun v => some v) {}
      [.set .headers (chars "Host") (chars "a"), .set .headers (chars "HOST") (chars "b"),
        .set .cookies (chars "host") (chars "c"), .get .headers (chars "host") [],
        .del .cookies (chars "Host"), .has .cookies (chars "host") (some []),
        .checkGetAs .headers (chars "hOST") []]).2 =
      [.done, .done, .done, .text (chars "b"), .done, .found false (some []),
        .checked true (chars "b")] := by
  decide

end FieldMaps

end CoLib.Http
