import DocQuery.Compare
import DocQuery.Proofs.AllColumns
import DocQuery.Proofs.SortKeys

namespace DocQuery.Proofs

open Sql

/-- A search that is set up by calls. -/
structure Search where
  collection : String
  filter : Value
  shown : Value
  keys : List (Direction × (Entries → Value))
  limit : Nat

namespace Search

def pairKey? : Value → Option (Direction × (Entries → Value))
  | .tuple [field, sign] => sortKey? (field, sign)
  | _ => none

/-- A search after a call that sets its order or its limit. -/
def next (s : Search) : Call → Option Search
  | .sort (.list pairs) => (pairs.mapM pairKey?).map fun keys => { s with keys }
  | .limit (.int n) => if 0 ≤ n then some { s with limit := n.toNat } else none
  | _ => none

def ofCalls : List Call → Option Search
  | .find (.text collection) filter shown :: calls =>
    calls.foldlM next ⟨collection, filter, shown, [], 0⟩
  | _ => none

/-- What a search shows of a document; all of it if no fields are named. -/
def visible (s : Search) (d : Entries) : Entries :=
  match s.shown with
  | .dict (f :: fs) => project (f :: fs) d
  | _ => d

end Search

/-- The documents that a search returns: those that match, in order, up to the limit. -/
def Engine.search (e : Engine) (collections : String → List Entries) (s : Search) :
    List Entries :=
  let matching := (collections s.collection).filter fun d => holds (fieldAt d) s.filter
  let sorted := e.sortBy s.keys matching
  (if s.limit = 0 then sorted else sorted.take s.limit).map s.visible

theorem search_length (e : Engine) (collections : String → List Entries) (s : Search) :
    (e.search collections s).length =
      let matching := (collections s.collection).filter fun d => holds (fieldAt d) s.filter
      if s.limit = 0 then matching.length else min s.limit matching.length := by
  have hsorted : ∀ xs : List Entries, (e.sortBy s.keys xs).length = xs.length :=
    fun xs => List.length_mergeSort xs
  unfold Engine.search
  split
  · rw [List.length_map, hsorted]
  · rw [List.length_map, List.length_take, hsorted]

/-- The number of documents is right just if there is a limit or nothing to be limited. -/
theorem search_bounded_iff (e : Engine) (collections : String → List Entries) (s : Search) :
    let matching := (collections s.collection).filter fun d => holds (fieldAt d) s.filter
    (e.search collections s).length = min s.limit matching.length ↔
      s.limit ≠ 0 ∨ matching = [] := by
  intro matching
  have hlength : (e.search collections s).length =
      if s.limit = 0 then matching.length else min s.limit matching.length :=
    search_length e collections s
  rw [hlength, ← List.length_eq_zero_iff]
  split <;> omega

theorem find_collection (base? : Option Value) (p : SelectOf Value) :
    Gives (Command.findCommand base? p)
      (fun command => command.entry "collection" = .ok p.table) := by
  have hentry : ∀ (string : String) (table filter projection : Value) (sort? limit? : Option Value),
      (FindParts.toValue ⟨table, filter, projection, sort?, limit?⟩ string).entry "collection" =
        .ok table := fun _ _ _ _ _ _ => rfl
  unfold Command.findCommand
  refine .bind fun _ => .bind fun _ => .bind fun _ => .ite ?_ ?_
  all_goals
    repeat refine .bind fun _ => ?_
    intro command hcommand
    cases hcommand
    exact hentry _ _ _ _ _ _

theorem pair_keys (es : Entries) :
    (es.map Call.pairOf).mapM Search.pairKey? = es.mapM sortKey? := by
  rw [List.mapM_map]
  rfl

theorem sort_of_order (os : List OrderItem) :
    Command.sortOf (.list (os.map OrderItem.toValue)) =
      .ok (if os = [] then none else some (.dict (sortEntries (mergedItems os)))) := by
  rw [Command.sortOf, order_present, sort_of, order_entries_merged]
  cases os <;> rfl

theorem limit_of_number (limit? : Option Nat) :
    Command.limitOf (optionalNumber limit?) = limit?.map fun (n : Nat) => .int n := by
  cases limit? <;> rfl

/-- The calls for a command that finds documents. -/
theorem calls_of_find {parts : FindParts} {string : String} {sorts : List Call}
    (hsorts : Call.sortOf (parts.entries string) = .ok sorts) :
    Call.ofCommand (parts.toValue string) =
      .ok (.find parts.collection parts.filter parts.projection :: sorts ++
        (parts.limit?.map .limit).toList) := by
  have hlimit : Call.limitOf (parts.entries string) = (parts.limit?.map .limit).toList := by
    rw [Call.limitOf, FindParts.get_limit]
  have hpipeline : Entries.get? (parts.entries string) (.text "pipeline") = none := by
    obtain ⟨_, _, _, sort?, limit?⟩ := parts
    cases sort? <;> cases limit? <;> rfl
  rw [FindParts.to_value_entries, Call.ofCommand, Value.asDict, ok_bind, hpipeline, hsorts, hlimit]
  rfl

/-- The search that the command of a statement sets up. -/
theorem statement_search {base? : Option Value} {q : Query} {t : String} {command : Value}
    (hsource : q.source = .table t) (h : Command.findCommand base? (partsOf q) = .ok command) :
    ∃ filter shown calls, Command.filterOf base? (partsOf q).condition = .ok filter ∧
      Call.ofCommand command = .ok calls ∧ Search.ofCalls calls =
        some ⟨t, filter, shown, itemKeys (mergedItems q.orderBy), q.limit?.getD 0⟩ := by
  have hcollection := find_collection base? (partsOf q) command h
  obtain ⟨parts, string, rfl, -, hfilter, hsort, hlimit, -⟩ := find_command_parts h
  have htable : parts.collection = .text t := by
    have hpart : (partsOf q).table = .text t := by simp [partsOf, hsource, sourceTable]
    rw [hpart] at hcollection
    exact Except.ok.inj hcollection
  have hlimit? : parts.limit? = q.limit?.map fun (n : Nat) => .int n :=
    hlimit.trans (limit_of_number q.limit?)
  have hsort? : parts.sort? =
      if q.orderBy = [] then none else some (.dict (sortEntries (mergedItems q.orderBy))) :=
    (Except.ok.inj ((sort_of_order q.orderBy).symm.trans hsort)).symm
  -- the order is a call of its own just if there is one
  obtain ⟨sorts, hsorts, hkeys⟩ : ∃ sorts, Call.sortOf (parts.entries string) = .ok sorts ∧
      ∀ s : Search, s.keys = [] →
        sorts.foldlM Search.next s = some { s with keys := itemKeys (mergedItems q.orderBy) } := by
    rw [Call.sortOf, FindParts.get_sort, hsort?]
    by_cases horder : q.orderBy = []
    · refine ⟨[], by rw [if_pos horder], fun s hs => ?_⟩
      obtain ⟨_, _, _, keys, _⟩ := s
      obtain rfl : keys = [] := hs
      rw [horder]
      rfl
    · refine ⟨_, by rw [if_neg horder]; rfl, fun s _ => ?_⟩
      have hkeys := (pair_keys (sortEntries (mergedItems q.orderBy))).trans
        (sort_keys_of (mergedItems q.orderBy))
      simp [Search.next, hkeys]
  refine ⟨parts.filter, parts.projection, _, hfilter, calls_of_find hsorts, ?_⟩
  rw [htable, hlimit?, List.cons_append, Search.ofCalls, List.foldlM_append, hkeys _ rfl]
  cases q.limit? with
  | none => rfl
  | some n => simp [Search.next]

/-- A search of one table returns its documents up to the limit just if the limit is not zero, or
nothing matches. -/
theorem search_limit_exact {schema : Value} {sql t : String} {line n : Nat} {q : Query}
    (hparse : Sql.parse sql line = .ok q) (haccepted : Accepted schema q)
    (hsource : q.source = .table t) (hgroups : groupsRows q = false)
    (hno : q.condition?.any asksQuery = false) (hlimit : q.limit? = some n) :
    ∃ command filter calls search, Pipeline.command schema sql line = .ok command ∧
      Command.filterOf (some (.text t)) (partsOf q).condition = .ok filter ∧
      Call.ofCommand command = .ok calls ∧ Search.ofCalls calls = some search ∧
      ∀ (e : Engine) collections,
        let matching := (collections t).filter fun d => holds (fieldAt d) filter
        (e.search collections search).length = min n matching.length ↔ n ≠ 0 ∨ matching = [] := by
  obtain ⟨f, hf, htext⟩ := condition_filter (some (.text t)) (parse_named hparse) hno
  obtain ⟨command, hfind⟩ := find_succeeds hsource hgroups hf htext
  have htranslate : Command.translate q.toValue = .ok command := by
    rw [translate_of, hno, hsource, hgroups]
    exact hfind
  obtain ⟨filter, shown, calls, hfilter, hcalls, hsearch⟩ := statement_search hsource hfind
  rw [hlimit] at hsearch
  exact ⟨command, filter, calls, _, command_accepted hparse haccepted htranslate, hfilter, hcalls,
    hsearch, fun e collections => search_bounded_iff e collections _⟩

/-- The youngest of the users over eighteen. -/
def youngestAdult : Query :=
  ⟨.items (.column ⟨none, "id"⟩) [], .table "users",
    some (.compare ⟨none, "age"⟩ .gt (.literal (.number 18))), [], none, [⟨"age", .asc⟩], some 1⟩

def youngestAdultText : String := "SELECT id FROM users WHERE age > 18 ORDER BY age LIMIT 1;"

def person (id age : Int) : Entries := [(.text "id", .int id), (.text "age", .int age)]

theorem search_youngest : ∃ command calls search,
    Pipeline.command shopSchema youngestAdultText 1 = .ok command ∧
      Call.ofCommand command = .ok calls ∧ Search.ofCalls calls = some search ∧
      (plainEngine.search (fun _ => [person 1 40, person 2 30, person 3 10]) search).length = 1 := by
  have hparse : Sql.parse youngestAdultText 1 = .ok youngestAdult :=
    parse_lexemes (lexemes_scanned ⟨rfl, rfl⟩) rfl
  have haccepted : Accepted shopSchema youngestAdult := by rfl
  obtain ⟨command, filter, calls, search, hcommand, hfilter, hcalls, hsearch, hall⟩ :=
    search_limit_exact hparse haccepted rfl rfl rfl rfl
  obtain rfl := Except.ok.inj hfilter
  exact ⟨command, calls, search, hcommand, hcalls, hsearch,
    (hall plainEngine fun _ => [person 1 40, person 2 30, person 3 10]).mpr (.inl one_ne_zero)⟩

/-- None of the users. -/
def noUsers : Query := ⟨.all, .table "users", none, [], none, [], some 0⟩

def noUsersText : String := "SELECT * FROM users LIMIT 0;"

/-- A search that should return nothing returns what there is. -/
theorem search_unlimited : Sql.parse noUsersText 1 = .ok noUsers ∧ Accepted shopSchema noUsers ∧
    ∃ command calls search, Pipeline.command shopSchema noUsersText 1 = .ok command ∧
      Call.ofCommand command = .ok calls ∧ Search.ofCalls calls = some search ∧
      (plainEngine.search (fun _ => [person 1 40]) search).length = 1 := by
  have hparse : Sql.parse noUsersText 1 = .ok noUsers := parse_spelled ⟨rfl, rfl⟩ rfl
  have haccepted : Accepted shopSchema noUsers := by rfl
  obtain ⟨command, hfind⟩ : Succeeds (Command.findCommand (some (.text "users")) (partsOf noUsers)) :=
    find_succeeds rfl rfl rfl (.ok _)
  obtain ⟨filter, shown, calls, hfilter, hcalls, hsearch⟩ := statement_search rfl hfind
  obtain rfl := Except.ok.inj hfilter
  exact ⟨hparse, haccepted, command, calls, _, command_accepted hparse haccepted hfind, hcalls,
    hsearch, search_length _ _ _⟩

end DocQuery.Proofs
