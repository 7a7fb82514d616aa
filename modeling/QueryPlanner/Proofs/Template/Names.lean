import QueryPlanner.Template.Render

/-!
# Quoted names cannot be confused

The parts of a qualified name are put in quotes, with the quotes inside of them doubled, and joined
by points.  A part may hold anything, also a quote, a point and another quote, which look like its
end.  They are not taken for it: inside of a part quotes come in pairs, and the quote that ends a
part is followed by a point or by nothing, never by a quote.  So the text of a name determines its
parts and how many they are.

## Main definitions

* `doubleQuotes` — a text with its quotes doubled.
* `writeParts` — parts in quotes, each after a point.
* `QualifiedName.parts` — the parts of a name under new names for databases and schemas.

## Main results

* `doubleQuotes_append_inj` — a part can be told from what follows it.
* `writeParts_inj` — **parts can be told from each other**.
* `renderNodes_name_eq_iff` — **quoted names cannot be confused**.
-/

namespace QueryPlanner

namespace Template

variable {quote : Char}

/-! ### One part -/

/-- A text with its quotes doubled. -/
def doubleQuotes (quote : Char) (part : List Char) : List Char :=
  part.flatMap fun c => if c = quote then [c, c] else [c]

@[simp] theorem doubleQuotes_quote (part : List Char) :
    doubleQuotes quote (quote :: part) = quote :: quote :: doubleQuotes quote part := by
  simp [doubleQuotes]

theorem doubleQuotes_cons {c : Char} (h : c ≠ quote) (part : List Char) :
    doubleQuotes quote (c :: part) = c :: doubleQuotes quote part := by
  simp [doubleQuotes, h]

theorem toList_quotePart (part : String) :
    (quotePart quote part).toList = quote :: (doubleQuotes quote part.toList ++ [quote]) := by
  simp [quotePart, doubleQuotes]

/-- A part does not go on after the quote that ends it, if no quote follows. -/
theorem doubleQuotes_append_ne {part rest rest' : List Char} (hrest : rest.head? ≠ some quote)
    (hpart : part ≠ []) : quote :: rest ≠ doubleQuotes quote part ++ quote :: rest' := by
  cases part with
  | nil => exact absurd rfl hpart
  | cons c part =>
    by_cases hc : c = quote
    · -- The quote in the part is doubled, and the one at the end is not.
      subst hc
      rw [doubleQuotes_quote]
      intro h
      rw [(List.cons.inj h).2] at hrest
      exact hrest rfl
    · rw [doubleQuotes_cons hc]
      exact fun h => hc (List.cons.inj h).1.symm

/-- **A part can be told from what follows it**, if that does not start with a quote. -/
theorem doubleQuotes_append_inj {rest rest' : List Char} (hrest : rest.head? ≠ some quote)
    (hrest' : rest'.head? ≠ some quote) : ∀ {part part' : List Char},
    doubleQuotes quote part ++ quote :: rest = doubleQuotes quote part' ++ quote :: rest' →
    part = part' ∧ rest = rest' := by
  intro part
  induction part with
  | nil =>
    intro part' h
    by_cases hpart : part' = []
    · subst hpart
      exact ⟨rfl, (List.cons.inj h).2⟩
    · exact absurd h (doubleQuotes_append_ne hrest hpart)
  | cons c part ih =>
    intro part' h
    cases part' with
    | nil => exact absurd h.symm (doubleQuotes_append_ne hrest' (by simp))
    | cons c' part' =>
      -- Both start with the same character, which is doubled in both or in none.
      have hhead : c = c' := by
        by_cases hc : c = quote <;> by_cases hc' : c' = quote
        · rw [hc, hc']
        · rw [hc, doubleQuotes_quote, doubleQuotes_cons hc'] at h
          exact absurd (List.cons.inj h).1.symm hc'
        · rw [hc', doubleQuotes_quote, doubleQuotes_cons hc] at h
          exact absurd (List.cons.inj h).1 hc
        · rw [doubleQuotes_cons hc, doubleQuotes_cons hc'] at h
          exact (List.cons.inj h).1
      subst hhead
      have htail : doubleQuotes quote part ++ quote :: rest
          = doubleQuotes quote part' ++ quote :: rest' := by
        by_cases hc : c = quote
        · subst hc
          simpa using h
        · simpa [doubleQuotes_cons hc] using h
      obtain ⟨rfl, hrests⟩ := ih htail
      exact ⟨rfl, hrests⟩

/-! ### Several parts -/

/-- Parts in quotes, each after a point. -/
def writeParts (quote : Char) (parts : List String) : List Char :=
  parts.flatMap fun part => '.' :: (quotePart quote part).toList

theorem writeParts_cons (part : String) (parts : List String) : writeParts quote (part :: parts)
    = '.' :: quote :: (doubleQuotes quote part.toList ++ quote :: writeParts quote parts) := by
  simp [writeParts, toList_quotePart]

/-- What follows a part does not start with a quote. -/
theorem head?_writeParts_ne (hdot : quote ≠ '.') (parts : List String) :
    (writeParts quote parts).head? ≠ some quote := by
  cases parts with
  | nil => simp [writeParts]
  | cons part parts => simpa [writeParts_cons] using hdot.symm

/-- **Parts can be told from each other.** -/
theorem writeParts_inj (hdot : quote ≠ '.') : ∀ {parts parts' : List String},
    writeParts quote parts = writeParts quote parts' → parts = parts' := by
  intro parts
  induction parts with
  | nil =>
    intro parts' h
    cases parts' with
    | nil => rfl
    | cons part' parts' => simp [writeParts] at h
  | cons part parts ih =>
    intro parts' h
    cases parts' with
    | nil => simp [writeParts] at h
    | cons part' parts' =>
      rw [writeParts_cons, writeParts_cons] at h
      obtain ⟨hpart, hrest⟩ := doubleQuotes_append_inj (head?_writeParts_ne hdot parts)
        (head?_writeParts_ne hdot parts') (List.cons.inj (List.cons.inj h).2).2
      rw [String.toList_inj.mp hpart, ih hrest]

/-! ### Qualified names -/

namespace QualifiedName

/-- The parts of a name under new names for databases and schemas. -/
def parts (databases schemas : Table String) (name : QualifiedName) : List String :=
  (name.database.map (mapped databases)).toList ++ [mapped schemas name.schema, name.name]

theorem toList_render (databases schemas : Table String) (name : QualifiedName) :
    '.' :: (name.render databases schemas).toList
      = writeParts name.quote (name.parts databases schemas) := by
  cases h : name.database <;> simp [render, parts, writeParts, h]

theorem parts_eq_iff (databases schemas databases' schemas' : Table String)
    (name name' : QualifiedName) : name.parts databases schemas = name'.parts databases' schemas' ↔
      name.database.map (mapped databases) = name'.database.map (mapped databases') ∧
        mapped schemas name.schema = mapped schemas' name'.schema ∧ name.name = name'.name := by
  unfold parts
  cases name.database <;> cases name'.database <;> simp

/-- The text of a name determines its parts. -/
theorem render_eq_iff {databases schemas databases' schemas' : Table String}
    {name name' : QualifiedName} (hquote : name'.quote = name.quote) (hdot : name.quote ≠ '.') :
    name.render databases schemas = name'.render databases' schemas' ↔
      name.parts databases schemas = name'.parts databases' schemas' := by
  constructor
  · intro h
    refine writeParts_inj hdot ?_
    calc writeParts name.quote (name.parts databases schemas)
        = '.' :: (name.render databases schemas).toList := (toList_render _ _ _).symm
      _ = '.' :: (name'.render databases' schemas').toList := by rw [h]
      _ = writeParts name'.quote (name'.parts databases' schemas') := toList_render _ _ _
      _ = writeParts name.quote (name'.parts databases' schemas') := by rw [hquote]
  · intro h
    have htexts : '.' :: (name.render databases schemas).toList
        = '.' :: (name'.render databases' schemas').toList := by
      rw [toList_render, toList_render, h, hquote]
    exact String.toList_inj.mp (List.cons.inj htexts).2

end QualifiedName

theorem renderNodes_name {s : Settings} {databases schemas : Table String}
    (hdatabases : s.databases = some databases) (hschemas : s.schemas = some schemas) (id : String)
    (name : QualifiedName) :
    renderNodes s [.placeholder id (some name)] = .ok (name.render databases schemas) := by
  simp [renderNodes, Node.renderAll, Node.render, Node.renderPlaceholder, hdatabases, hschemas,
    bind, Except.bind, pure, Except.pure]

/-- **Quoted names cannot be confused.**  Under settings with new names for databases and schemas,
names in the same quotes, which may be anything but points, are rendered to texts, and the texts are
equal just if both names have a database or none has, and the databases, the schemas and the names
proper are the same under the new names. -/
theorem renderNodes_name_eq_iff {s s' : Settings}
    {databases schemas databases' schemas' : Table String}
    (hdatabases : s.databases = some databases) (hschemas : s.schemas = some schemas)
    (hdatabases' : s'.databases = some databases') (hschemas' : s'.schemas = some schemas')
    (id id' : String) {name name' : QualifiedName} (hquote : name'.quote = name.quote)
    (hdot : name.quote ≠ '.') :
    ∃ text text' : String,
      renderNodes s [.placeholder id (some name)] = .ok text ∧
      renderNodes s' [.placeholder id' (some name')] = .ok text' ∧
      (text = text' ↔
        name.database.map (mapped databases) = name'.database.map (mapped databases') ∧
          mapped schemas name.schema = mapped schemas' name'.schema ∧ name.name = name'.name) := by
  refine ⟨name.render databases schemas, name'.render databases' schemas',
    renderNodes_name hdatabases hschemas id name,
    renderNodes_name hdatabases' hschemas' id' name', ?_⟩
  rw [QualifiedName.render_eq_iff hquote hdot, QualifiedName.parts_eq_iff]

/-- A name without a database, whose schema holds what looks like the end of a part, and one with a
database that it looks like. -/
theorem renderNodes_name_eq_iff_orders :
    let s := (Settings.empty.withDatabase "main" "live").withIdentityMappings
    let short : QualifiedName := ⟨none, "live\".\"sales", "Orders", '"'⟩
    let long : QualifiedName := ⟨some "main", "sales", "Orders", '"'⟩
    s.databases = some [("main", "live")] ∧ s.schemas = some [] ∧ short.quote ≠ '.' ∧
      ∃ text text' : String,
        renderNodes s [.qualified short] = .ok text ∧ renderNodes s [.qualified long] = .ok text' ∧
        text = "\"live\"\".\"\"sales\".\"Orders\"" ∧ text' = "\"live\".\"sales\".\"Orders\"" ∧
        text ≠ text' := by
  intro s short long
  have hdatabases : s.databases = some [("main", "live")] := rfl
  have hschemas : s.schemas = some [] := rfl
  have hdot : short.quote ≠ '.' := by decide
  obtain ⟨text, text', htext, htext', hiff⟩ := renderNodes_name_eq_iff hdatabases hschemas
    hdatabases hschemas short.dotted long.dotted (show long.quote = short.quote from rfl) hdot
  refine ⟨hdatabases, hschemas, hdot, text, text', htext, htext', ?_, ?_, fun h => ?_⟩
  · rw [Except.ok.inj (htext.symm.trans (renderNodes_name hdatabases hschemas _ short))]
    decide
  · rw [Except.ok.inj (htext'.symm.trans (renderNodes_name hdatabases hschemas _ long))]
    decide
  · -- The quote in the short name is doubled, so it does not end the name.
    exact absurd (hiff.mp h).1 (by decide)

end Template

end QueryPlanner
