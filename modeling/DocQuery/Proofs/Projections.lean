import DocQuery.Proofs.GroupedRows
import DocQuery.Proofs.JoinedRows

namespace DocQuery.Proofs

open Value (doc)

theorem put_same {es : Entries} {k : String} {v : Value}
    (h : Entries.get? es (.text k) = some v) : Entries.put es (.text k) v = es := by
  induction es with
  | nil => cases h
  | cons e es ih =>
    obtain ⟨key, w⟩ := e
    cases hk : key.same (.text k) with
    | true =>
      have hw : some w = some v := by simpa [Entries.get?, hk] using h
      cases hw
      simp [Entries.put, hk]
    | false =>
      have hrest : Entries.get? es (.text k) = some v := by simpa [Entries.get?, hk] using h
      simp [Entries.put, hk, ih hrest]

theorem value_at_name {es : Entries} {name : String} {path : List String} {v : Value} :
    valueAt (.dict es) (name :: path) = some v ↔
      ∃ w, Entries.get? es (.text name) = some w ∧ valueAt w path = some v := by
  rw [valueAt, Option.bind_eq_some_iff]

/-- A path goes on only in a document. -/
theorem value_at_document {v w : Value} {name : String} {path : List String}
    (h : valueAt v (name :: path) = some w) : ∃ es, v = .dict es := by
  cases v with
  | dict es => exact ⟨es, rfl⟩
  | _ => cases h

theorem put_path_next {out inner : Entries} {name next : String} {path : List String}
    (h : Entries.get? out (.text name) = some (.dict inner)) (v : Value) :
    putPath out (name :: next :: path) v =
      Entries.put out (.text name) (.dict (putPath inner (next :: path) v)) := by
  rw [putPath, h]

theorem put_path_shows (out : Entries) {path : List String} (hpath : path ≠ []) (v : Value) :
    valueAt (.dict (putPath out path v)) path = some v := by
  fun_induction putPath out path v with
  | case1 => exact absurd rfl hpath
  | case2 out v name => simp [valueAt, get_put]
  | case3 out v name next path inner ih =>
    rw [valueAt, get_put, if_pos rfl, Option.bind_some]
    exact ih (by simp)

/-- To put what is there changes nothing. -/
theorem put_path_same {es : Entries} {name : String} {path : List String} {v : Value}
    (h : valueAt (.dict es) (name :: path) = some v) : putPath es (name :: path) v = es := by
  induction path generalizing es name with
  | nil =>
    obtain ⟨w, hw, hv⟩ := value_at_name.mp h
    cases hv
    exact put_same hw
  | cons next path ih =>
    obtain ⟨w, hw, hv⟩ := value_at_name.mp h
    obtain ⟨inner, rfl⟩ := value_at_document hv
    rw [put_path_next hw, ih hv, put_same hw]

/-- Where two documents agree, they still do after what the first one has was put into the
second. -/
theorem put_path_keeps {d out : Entries} {name : String} {path : List String} {v : Value}
    (hv : valueAt (.dict d) (name :: path) = some v) {other : String} {rest : List String}
    {w : Value} (hd : valueAt (.dict d) (other :: rest) = some w)
    (hout : valueAt (.dict out) (other :: rest) = some w) :
    valueAt (.dict (putPath out (name :: path) v)) (other :: rest) = some w := by
  induction path generalizing d out name other rest with
  | nil =>
    by_cases hname : name = other
    · subst hname
      obtain ⟨x, hx, hxv⟩ := value_at_name.mp hv
      cases hxv
      obtain ⟨y, hy, hyw⟩ := value_at_name.mp hd
      obtain rfl : v = y := Option.some.inj (hx.symm.trans hy)
      exact value_at_name.mpr ⟨v, by rw [putPath, get_put, if_pos rfl], hyw⟩
    · obtain ⟨y, hy, hyw⟩ := value_at_name.mp hout
      exact value_at_name.mpr ⟨y, by rw [putPath, get_put, if_neg hname, hy], hyw⟩
  | cons next path ih =>
    by_cases hname : name = other
    · subst hname
      obtain ⟨x, hx, hxv⟩ := value_at_name.mp hv
      obtain ⟨inside, rfl⟩ := value_at_document hxv
      obtain ⟨y, hy, hyw⟩ := value_at_name.mp hout
      obtain ⟨z, hz, hzw⟩ := value_at_name.mp hd
      obtain rfl : .dict inside = z := Option.some.inj (hx.symm.trans hz)
      cases rest with
      | nil =>
        cases hzw
        cases hyw
        refine value_at_name.mpr ⟨.dict inside, ?_, rfl⟩
        rw [put_path_next hy, put_path_same hxv, get_put, if_pos rfl]
      | cons after rest =>
        obtain ⟨inner, rfl⟩ := value_at_document hyw
        refine value_at_name.mpr ⟨_, ?_, ih hxv hzw hyw⟩
        rw [put_path_next hy, get_put, if_pos rfl]
    · obtain ⟨y, hy, hyw⟩ := value_at_name.mp hout
      refine value_at_name.mpr ⟨y, ?_, hyw⟩
      rw [putPath, get_put, if_neg hname, hy]

theorem path_names_cons (s : String) : ∃ name path, pathNames s = name :: path := by
  have hparts : Value.dotParts s.toList ≠ [] := by
    fun_cases Value.dotParts s.toList <;> simp
  obtain ⟨part, parts, hcons⟩ := List.exists_cons_of_ne_nil hparts
  exact ⟨_, _, by rw [pathNames, hcons, List.map_cons]⟩

/-- What a document has at a path is there after a field of the document was put. -/
theorem put_field_keeps {d out : Entries} {path : String} {v : Value}
    (hd : fieldAt? d path = some v) (hout : fieldAt? out path = some v) (name : String) :
    fieldAt? (putField out (.text name) (fieldAt? d name)) path = some v := by
  cases hname : fieldAt? d name with
  | none => exact hout
  | some w =>
    obtain ⟨first, names, hnames⟩ := path_names_cons name
    obtain ⟨other, rest, hpath⟩ := path_names_cons path
    rw [fieldAt?, hpath] at hd hout ⊢
    rw [fieldAt?, hnames] at hname
    rw [putField, hnames]
    exact put_path_keeps hname hd hout

theorem put_field_shows {d : Entries} {name : String} {v : Value} (h : fieldAt? d name = some v)
    (out : Entries) : fieldAt? (putField out (.text name) (fieldAt? d name)) name = some v := by
  obtain ⟨first, names, hnames⟩ := path_names_cons name
  rw [h, putField, fieldAt?, hnames]
  exact put_path_shows out (by simp) v

/-- A projection that only lists fields. -/
def Lists (es : Entries) : Prop := ∀ f ∈ es, ∃ name, f = (.text name, .int 1)

/-- A listed field is shown at its own path, whatever else is listed. -/
theorem project_shows {es d : Entries} (hes : Lists es) {name : String} {v : Value}
    (hname : (.text name, .int 1) ∈ es) (hv : fieldAt? d name = some v) :
    fieldAt? (project es d) name = some v := by
  have hfold : ∀ out, (.text name, .int 1) ∈ es ∨ fieldAt? out name = some v →
      fieldAt? (es.foldl (fun out f => putField out f.1 (projected d f)) out) name = some v := by
    clear hname
    induction es with
    | nil =>
      rintro out (h | h)
      · cases h
      · exact h
    | cons f es ih =>
      obtain ⟨⟨other, rfl⟩, hrest⟩ := List.forall_mem_cons.mp hes
      intro out h
      refine ih hrest _ ?_
      rcases h with h | h
      · rcases List.mem_cons.mp h with h | h
        · cases h
          exact .inr (put_field_shows hv out)
        · exact .inl h
      · exact .inr (put_field_keeps hv h other)
  exact hfold _ (.inl hname)

/-- Stages that say what the documents of the output hold. -/
def isShaping : Value → Bool
  | .dict [(.text operator, _)] => operator == "$addFields" || operator == "$project"
  | _ => false

/-- Stages show under a path what the documents before them have under another one. -/
structure TakesFrom (stages : List Value) (shown path : String) : Prop where
  listed : ∃ es, Command.projectStage es ∈ stages ∧ Entries.get? es (.text shown) = some (.int 1)
  value : ∀ (e : Engine) (collections : String → List Entries) (d : Entries) (v : Value),
    fieldAt? d path = some v →
      ∃ out, e.run collections stages [d] = some [out] ∧ fieldAt? out shown = some v

/-- Additions, if there are any, and a projection that lists fields. -/
def shapeStages (moved : List (String × Value)) (shown : List String) : List Value :=
  addStages (putAll [] moved) ++ [Command.projectStage (putAll [] (shown.map (·, .int 1)))]

theorem shown_listed {shown : List String} {name : String} :
    Entries.get? (putAll [] (shown.map (·, .int 1))) (.text name) = some (.int 1) ↔
      name ∈ shown := by
  constructor
  · intro h
    by_contra hno
    have hother : Entries.get? (putAll [] (shown.map (·, .int 1))) (.text name) = none := by
      refine get_put_all_other fun f hf he => ?_
      obtain ⟨other, hmem, rfl⟩ := List.mem_map.mp hf
      exact hno (he ▸ hmem)
    rw [hother] at h
    cases h
  · intro h
    refine get_put_all ⟨_, List.mem_map_of_mem h, rfl⟩ fun f hf _ => ?_
    obtain ⟨other, -, rfl⟩ := List.mem_map.mp hf
    rfl

theorem shown_lists (shown : List String) : Lists (putAll [] (shown.map (·, .int 1))) := by
  intro f hf
  rcases put_all_mem hf with hf | ⟨g, hg, rfl⟩
  · cases hf
  · obtain ⟨name, -, rfl⟩ := List.mem_map.mp hg
    exact ⟨name, rfl⟩

theorem shape_projects {moved : List (String × Value)} {shown : List String} {es : Entries} :
    Command.projectStage es ∈ shapeStages moved shown ↔
      es = putAll [] (shown.map (·, .int 1)) := by
  constructor
  · intro hes
    rw [shapeStages, List.mem_append, List.mem_singleton] at hes
    rcases hes with hes | hes
    · unfold addStages at hes
      split at hes
      · cases hes
      · simp [Command.projectStage, doc] at hes
    · simpa [Command.projectStage, doc] using hes
  · rintro rfl
    exact List.mem_append_right _ (List.mem_singleton_self _)

theorem shape_listed {moved : List (String × Value)} {shown : List String} {name : String} :
    (∃ es, Command.projectStage es ∈ shapeStages moved shown ∧
      Entries.get? es (.text name) = some (.int 1)) ↔ name ∈ shown := by
  constructor
  · rintro ⟨es, hes, hname⟩
    rwa [shape_projects.mp hes, shown_listed] at hname
  · intro h
    exact ⟨_, shape_projects.mpr rfl, shown_listed.mpr h⟩

theorem run_shape (e : Engine) (collections : String → List Entries)
    (moved : List (String × Value)) (shown : List String) (d : Entries) :
    e.run collections (shapeStages moved shown) [d] = some [project
      (putAll [] (shown.map (·, .int 1))) (addFields (putAll [] moved) d)] := by
  rw [shapeStages, run_append, run_add, Option.bind_some, run_single]
  rfl

/-- A listed field shows what the additions leave at its path. -/
theorem shape_takes {moved : List (String × Value)} {shown : List String} {name path : String}
    (hname : name ∈ shown) (hadded : ∀ d v, fieldAt? d path = some v →
      fieldAt? (addFields (putAll [] moved) d) name = some v) :
    TakesFrom (shapeStages moved shown) name path where
  listed := shape_listed.mpr hname
  value e collections d v hv :=
    ⟨_, run_shape e collections moved shown d,
      project_shows (shown_lists shown) (get_entry (shown_listed.mpr hname)) (hadded d v hv)⟩

/-- A path from which a field is taken is told by the values of documents. -/
theorem takes_same {stages : List Value} {shown path path' : String}
    (h : TakesFrom stages shown path) (h' : TakesFrom stages shown path') {d : Entries}
    {v v' : Value} (hv : fieldAt? d path = some v) (hv' : fieldAt? d path' = some v') : v = v' := by
  obtain ⟨out, hrun, hout⟩ := h.value plainEngine (fun _ => []) d v hv
  obtain ⟨out', hrun', hout'⟩ := h'.value plainEngine (fun _ => []) d v' hv'
  obtain rfl : out = out' := by
    rw [hrun] at hrun'
    simpa using hrun'
  exact Option.some.inj (hout.symm.trans hout')

/-- A name and the same name below another one do not always hold the same. -/
theorem below_differs {joined name : String} (hj : NoDot joined) (hn : NoDot name) :
    ∃ (d : Entries) (v w : Value), fieldAt? d name = some v ∧
      fieldAt? d (joined ++ "." ++ name) = some w ∧ v ≠ w := by
  let inner : Entries := [(.text name, .int 2)]
  have hinner : Entries.get? (pairDocument joined ([(.text name, .int 1)], inner)) (.text joined) =
      some (.dict inner) := by
    rw [pairDocument, get_put, if_pos rfl]
  refine ⟨_, if joined = name then .dict inner else .int 1, .int 2, ?_,
    (field_at_dotted hj hn hinner).trans (by simp [inner, Entries.get?]), ?_⟩
  · rw [field_at_name _ hn, pairDocument, get_put]
    split <;> simp [Entries.get?]
  · split <;> simp

end DocQuery.Proofs
