import DocQuery.Proofs.PrintedFilters

namespace DocQuery.Proofs

open Value (doc)

theorem entry_of_one {k v f : Value} (h : Value.entryOf k v = .ok f) : f = .dict [(k, v)] := by
  obtain ⟨-, -, hx⟩ := bind_ok.mp h
  exact (Except.ok.inj hx).symm

/-- The filter of a condition has one entry. -/
theorem filter_one_entry {base? : Option Value} {c f : Value}
    (h : Command.filter base? c = .ok f) : ∃ e, f = .dict [e] := by
  cases c with
  | logical l o r =>
    simp only [Command.filter, bind_ok] at h
    obtain ⟨left, -, right, -, key, -, hx⟩ := h
    cases hx
    exact ⟨_, rfl⟩
  | comparison i o v =>
    simp only [Command.filter, bind_ok, command_lift_ok] at h
    obtain ⟨field, -, t, -, hdocument⟩ := h
    cases t with
    | between =>
      obtain ⟨bounds, -, hentry⟩ := bind_ok.mp hdocument
      exact ⟨_, entry_of_one hentry⟩
    | _ => exact ⟨_, entry_of_one hdocument⟩
  | _ => cases h

/-- A filter is empty, and then there is no condition, or has entries to print. -/
theorem filter_of_cases {base? : Option Value} {c f : Value}
    (h : Command.filterOf base? c = .ok f) :
    c.present = false ∧ f = .dict [] ∨ c.present = true ∧ f.present = true := by
  unfold Command.filterOf at h
  split at h
  · rename_i hc
    obtain ⟨e, rfl⟩ := filter_one_entry h
    exact .inr ⟨hc, rfl⟩
  · rename_i hc
    cases h
    exact .inl ⟨by simpa using hc, rfl⟩

theorem tail_text_optional {sort? limit? : Option Value} {tail : String}
    (h : Command.tailText sort? limit? = .ok tail) :
    ∃ sort limit, OptionalText Command.shellText Command.sortText sort? sort ∧
      OptionalText Value.str Command.limitText limit? limit ∧ tail = sort ++ limit := by
  cases sort? with
  | none =>
    cases limit? with
    | none => exact ⟨"", "", rfl, rfl, (Except.ok.inj h).symm⟩
    | some n =>
      simp only [Command.tailText, pure_ok, ok_bind, bind_ok] at h
      obtain ⟨l, hl, hx⟩ := h
      exact ⟨"", _, rfl, ⟨l, hl, rfl⟩, (Except.ok.inj hx).symm⟩
  | some s =>
    simp only [Command.tailText, pure_ok, ok_bind, bind_ok] at h
    obtain ⟨t, ht, h⟩ := h
    cases limit? with
    | none => exact ⟨_, "", ⟨t, ht, rfl⟩, rfl, (Except.ok.inj h).symm⟩
    | some n =>
      obtain ⟨l, hl, hx⟩ := bind_ok.mp h
      exact ⟨_, _, ⟨t, ht, rfl⟩, ⟨l, hl, rfl⟩, (Except.ok.inj hx).symm⟩

/-- The text that is built with a command, from the texts of its parts. -/
theorem find_command_text {base? : Option Value} {q : SelectOf Value} {command : Value}
    (h : Command.findCommand base? q = .ok command) :
    ∃ (parts : FindParts) (name s sort limit : String) (p? : Option String),
      command = parts.toValue (Command.findText name s p? ++ (sort ++ limit)) ∧
      Command.filterOf base? q.condition = .ok parts.filter ∧
      q.table.str = .ok name ∧ parts.collection.str = .ok name ∧
      Command.shellText parts.filter = .ok s ∧
      (if parts.projection.present then
        ∃ p, Command.shellText parts.projection = .ok p ∧ p? = some p else p? = none) ∧
      OptionalText Command.shellText Command.sortText parts.sort? sort ∧
      OptionalText Value.str Command.limitText parts.limit? limit := by
  simp only [Command.findCommand, bind_ok, command_lift_ok] at h
  obtain ⟨filter, hfilter, projection, -, s, hs, h⟩ := h
  split at h
  · rename_i hp
    simp only [bind_ok, command_lift_ok] at h
    obtain ⟨p, hshown, p?, hp?, name, hname, sort?, -, tail, htail, hx⟩ := h
    cases hp?
    cases hx
    obtain ⟨sort, limit, hsort, hlimit, rfl⟩ := tail_text_optional htail
    refine ⟨⟨q.table, filter, projection, sort?, Command.limitOf q.limit⟩, name, s, sort, limit,
      some p, rfl, hfilter, hname, hname, hs, ?_, hsort, hlimit⟩
    rw [if_pos hp]
    exact ⟨p, hshown, rfl⟩
  · rename_i hp
    simp only [bind_ok, command_lift_ok] at h
    obtain ⟨p?, hp?, name, hname, sort?, -, tail, htail, hx⟩ := h
    cases hp?
    cases hx
    obtain ⟨sort, limit, hsort, hlimit, rfl⟩ := tail_text_optional htail
    refine ⟨⟨q.table, filter, projection, sort?, Command.limitOf q.limit⟩, name, s, sort, limit,
      none, rfl, hfilter, hname, hname, hs, ?_, hsort, hlimit⟩
    rw [if_neg hp]

/-- The text built with a command is the text printed from its entries, except that it has two
blanks in an empty filter. -/
theorem find_texts_agree {base? : Option Value} {q : SelectOf Value} {command : Value}
    (h : Command.findCommand base? q = .ok command) :
    ∃ (name shown rest : String) (filter : Value), q.table.str = .ok name ∧
      command.entry "filter" = .ok filter ∧ Command.shellText filter = .ok shown ∧
      command.entry "string" = .ok (.text ("db." ++ name ++ ".find(" ++ shown ++ rest)) ∧
      (filter ≠ .dict [] → Command.findCommandText command =
        .ok ("db." ++ name ++ ".find(" ++ shown ++ rest)) ∧
      (filter = .dict [] → shown = "\x7b  \x7d" ∧ Command.findCommandText command =
        .ok ("db." ++ name ++ ".find(" ++ "\x7b\x7d" ++ rest)) := by
  obtain ⟨parts, name, s, sort, limit, p?, rfl, hfilter, htable, hname, hs, hp, hsort, hlimit⟩ :=
    find_command_text h
  obtain ⟨after, hafter⟩ := find_text_filter name p?
  have hbuilt : Command.findText name s p? ++ (sort ++ limit) =
      "db." ++ name ++ ".find(" ++ s ++ (after ++ (sort ++ limit)) := by
    rw [hafter, String.append_assoc]
  have hprinted : ∀ string t, filterText parts.filter = .ok t →
      Command.findCommandText (parts.toValue string) =
        .ok ("db." ++ name ++ ".find(" ++ t ++ (after ++ (sort ++ limit))) := by
    intro string t ht
    rw [find_text_value string hname ht hp hsort hlimit, hafter]
    simp only [String.append_assoc]
  refine ⟨name, s, after ++ (sort ++ limit), parts.filter, htable, rfl, hs, ?_, ?_, ?_⟩
  · rw [← hbuilt]
    rfl
  · intro hne
    have hpresent : parts.filter.present = true := by
      rcases filter_of_cases hfilter with ⟨-, hempty⟩ | ⟨-, hpresent⟩
      · exact absurd hempty hne
      · exact hpresent
    apply hprinted
    rw [filterText, if_pos hpresent, hs]
  · intro hempty
    rw [hempty] at hs
    refine ⟨(Except.ok.inj hs).symm, hprinted _ _ ?_⟩
    rw [hempty]
    rfl

/-- The three youngest users of a city. -/
def youngestUsers : SelectOf Value where
  columns := .list [.text "id"]
  table := .text "users"
  joins := .list []
  condition := .comparison (.text "city") (.text "=") (.text "a")
  groupBy := .list []
  having := .null
  orderBy := .list [.orderItem (.text "age") "ASC"]
  limit := .int 3
  offset := .null
  join? := none
  filter? := none
  resolved? := none

def youngestText : String :=
  "db.users.find(\x7b city: \"a\" \x7d, \x7b id: 1 \x7d).sort(\x7b age: 1 \x7d).limit(3)"

def youngestCommand : Value :=
  FindParts.toValue ⟨.text "users", doc [("city", .text "a")], doc [("id", .int 1)],
    some (doc [("age", .int 1)]), some (.int 3)⟩ youngestText

theorem find_texts_agree_youngest :
    Command.findCommand none youngestUsers = .ok youngestCommand ∧
      Command.findCommandText youngestCommand = .ok youngestText := by
  have hcommand : Command.findCommand none youngestUsers = .ok youngestCommand := rfl
  obtain ⟨name, shown, rest, filter, -, hfilter, -, hstring, hprinted, -⟩ :=
    find_texts_agree hcommand
  obtain rfl : doc [("city", .text "a")] = filter := Except.ok.inj hfilter
  have htext : youngestText = "db." ++ name ++ ".find(" ++ shown ++ rest :=
    Value.text.inj (Except.ok.inj hstring)
  refine ⟨hcommand, ?_⟩
  rw [htext]
  apply hprinted
  simp [doc]

end DocQuery.Proofs
