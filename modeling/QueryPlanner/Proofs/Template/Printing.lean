import QueryPlanner.Proofs.Template.Compacted
import QueryPlanner.Proofs.Template.Scoping
import QueryPlanner.Proofs.Template.Tokens

/-!
# Printing templates

Every well-formed template has a text that is read back as it.  Three mechanisms have to fit at
every level of nesting: literal braces are doubled, the closing brace of a directive is searched for
outside of quoted texts, and a nested template stands in quotes with its own backslashes and quotes
escaped.

## Main definitions

* `Node.print`, `Node.printAll` — the text of nodes.
* `Node.isWellFormed` — nodes that have a text: identifiers are such, and literal text is neither
  empty nor beside literal text.
* `Node.tokens` — the tokens between the braces of a directive.

## Main results

* `Node.toList_print` — a directive is printed as its tokens in braces.
* `Directive.parse_tokens` — the tokens of a directive are read back.
* `parse_printAll` — **every well-formed template is read back**.
-/

namespace QueryPlanner

namespace Template

/-! ### Texts of nodes -/

namespace QualifiedName

theorem dotted_none (schema name : String) (quote : Char) :
    dotted ⟨none, schema, name, quote⟩ = schema ++ "." ++ name := rfl

theorem dotted_some (database schema name : String) (quote : Char) :
    dotted ⟨some database, schema, name, quote⟩ = database ++ "." ++ schema ++ "." ++ name := rfl

end QualifiedName

/-- A text in quotes, with its backslashes and quotes escaped. -/
def quoted (content : String) : String :=
  "\"" ++ String.ofList (escapeQuoted content.toList) ++ "\""

/-- A directive with a name and arguments. -/
def directiveText (name : String) (arguments : List String) : String :=
  "\x7b" ++ name ++ ":" ++ ",".intercalate arguments ++ "\x7d"

namespace Node

mutual

/-- The text of a node. -/
def print : Node → String
  | .text literal => escape literal
  | .container children _ => directiveText "indent" [quoted (printAll children)]
  | .variant id main alternative =>
    directiveText "variant" [id, quoted (printAll main), quoted (printAll alternative)]
  | .placeholder id none => "\x7b" ++ id ++ "\x7d"
  | .placeholder _ (some name) =>
    directiveText "schema" [name.dotted, quoted (String.singleton name.quote)]
  | .cycle id body separator emptyCase =>
    directiveText "cycle" [id, quoted (printAll body), quoted separator,
      quoted (printAll emptyCase)]
  | .item index => directiveText "item" [toString index]
  | .delimiter literal .column => directiveText "delimiter" [quoted literal]
  | .delimiter literal .row => directiveText "row_delimiter" [quoted literal]

/-- The text of several nodes. -/
def printAll : List Node → String
  | [] => ""
  | n :: ns => print n ++ printAll ns

end

/-! ### Well-formed nodes -/

theorem exists_eq_text {n : Node} (h : n.isText) : ∃ t, n = .text t := by
  cases n with
  | text t => exact ⟨t, rfl⟩
  | _ => cases h

/-- Whether the parts of a qualified name are identifiers. -/
def hasIdentifiers (name : QualifiedName) : Bool :=
  name.database.all Token.isIdentifier && Token.isIdentifier name.schema &&
    Token.isIdentifier name.name

mutual

/-- Whether a node has a text that can be read: ids and parts of names are identifiers, containers
are indented, literal text is not empty, and the number of an item is one that a token can hold. -/
def isWellFormed : Node → Bool
  | .text literal => literal != ""
  | .container children isIndented => isIndented && areWellFormed children
  | .variant id main alternative =>
    Token.isIdentifier id && areWellFormed main && areWellFormed alternative
  | .placeholder id none => Token.isIdentifier id
  | .placeholder id (some name) => hasIdentifiers name && id == name.dotted
  | .cycle id body _ emptyCase =>
    Token.isIdentifier id && areWellFormed body && areWellFormed emptyCase
  | .item index => index ≤ Token.maxInteger
  | .delimiter _ _ => true

/-- Whether several nodes have a text that can be read, and no literal text stands beside another.
-/
def areWellFormed : List Node → Bool
  | [] => true
  | n :: ns => isWellFormed n && !(n.isText && ns.head?.any isText) && areWellFormed ns

end

/-! ### Tokens of directives -/

/-- The tokens between the braces of a directive; literal text has none. -/
def tokens : Node → List Token
  | .text _ => []
  | .container children _ => [.ident "indent", .colon, .text (printAll children)]
  | .variant id main alternative =>
    [.ident "variant", .colon, .ident id, .comma, .text (printAll main), .comma,
      .text (printAll alternative)]
  | .placeholder id none => [.ident id]
  | .placeholder _ (some name) => .ident "schema" :: .colon :: TokenReader.nameTokens name
  | .cycle id body separator emptyCase =>
    [.ident "cycle", .colon, .ident id, .comma, .text (printAll body), .comma, .text separator,
      .comma, .text (printAll emptyCase)]
  | .item index => [.ident "item", .colon, .integer index]
  | .delimiter literal .column => [.ident "delimiter", .colon, .text literal]
  | .delimiter literal .row => [.ident "row_delimiter", .colon, .text literal]

/-- A directive is printed as its tokens in braces. -/
theorem toList_print {n : Node} (h : n.isText = false) :
    (print n).toList = '{' :: n.tokens.flatMap Token.written ++ ['}'] := by
  cases n with
  | text literal => cases h
  | container children isIndented => simp [print, tokens, Token.written, directiveText, quoted]
  | variant id main alternative => simp [print, tokens, Token.written, directiveText, quoted]
  | placeholder id name =>
    cases name with
    | none => simp [print, tokens, Token.written]
    | some name =>
      obtain ⟨database, schema, name, quote⟩ := name
      cases database <;>
        simp [print, tokens, Token.written, directiveText, quoted, TokenReader.nameTokens,
          QualifiedName.dotted_none, QualifiedName.dotted_some]
  | cycle id body separator emptyCase => simp [print, tokens, Token.written, directiveText, quoted]
  | item index => simp [print, tokens, Token.written, directiveText]
  | delimiter literal kind =>
    cases kind <;> simp [print, tokens, Token.written, directiveText, quoted]

/-- The first token of a directive is a word. -/
theorem exists_ident_of_tokens {n : Node} (h : n.isText = false) :
    ∃ name ts, n.tokens = .ident name :: ts := by
  cases n with
  | text literal => cases h
  | placeholder id name => cases name <;> exact ⟨_, _, rfl⟩
  | delimiter literal kind => cases kind <;> exact ⟨_, _, rfl⟩
  | _ => exact ⟨_, _, rfl⟩

theorem areApart_tokens (n : Node) : Token.areApart n.tokens := by
  cases n with
  | placeholder id name =>
    cases name with
    | none => rfl
    | some name =>
      obtain ⟨database, schema, name, quote⟩ := name
      cases database <;> rfl
  | delimiter literal kind => cases kind <;> rfl
  | _ => rfl

theorem all_isSpelled_tokens {n : Node} (h : n.isWellFormed) : n.tokens.all Token.isSpelled := by
  -- The names of all directives are identifiers.
  have hword : ∀ name ∈ ["indent", "variant", "schema", "cycle", "item", "delimiter",
      "row_delimiter"], Token.isIdentifier name := by decide
  cases n with
  | text literal => rfl
  | container children isIndented => simp [tokens, Token.isSpelled, hword]
  | variant id main alternative =>
    simp only [isWellFormed, Bool.and_eq_true] at h
    simp [tokens, Token.isSpelled, hword, h]
  | placeholder id name =>
    cases name with
    | none => simpa [tokens, Token.isSpelled, isWellFormed] using h
    | some name =>
      obtain ⟨database, schema, name, quote⟩ := name
      simp only [isWellFormed, hasIdentifiers, Bool.and_eq_true] at h
      cases database <;> simp [tokens, TokenReader.nameTokens, Token.isSpelled, hword] <;> simp_all
  | cycle id body separator emptyCase =>
    simp only [isWellFormed, Bool.and_eq_true] at h
    simp [tokens, Token.isSpelled, hword, h]
  | item index =>
    have hindex : index ≤ Token.maxInteger := of_decide_eq_true h
    simp [tokens, Token.isSpelled, hword, hindex]
  | delimiter literal kind => cases kind <;> simp [tokens, Token.isSpelled, hword]

/-- A directive does not begin with a further brace. -/
theorem head?_written_tokens_ne {n : Node} (htext : n.isText = false) (h : n.isWellFormed) :
    (n.tokens.flatMap Token.written).head? ≠ some '{' := by
  obtain ⟨name, ts, hcons⟩ := exists_ident_of_tokens htext
  have hspelled := all_isSpelled_tokens h
  rw [hcons, List.all_cons, Bool.and_eq_true] at hspelled
  have hname : Token.isIdentifier name := hspelled.1
  unfold Token.isIdentifier at hname
  split at hname
  · cases hname
  · next c cs hchars =>
    have hpart := Token.isIdentPart_of_isIdentStart (Bool.and_eq_true_iff.mp hname).1
    have hbrace : c ≠ '{' := Token.ne_of_isIdentPart hpart (by decide)
    simp [hcons, Token.written, hchars, hbrace]

/-- A quoted text is no longer than the tokens around it. -/
theorem length_le_of_mem_tokens {ts : List Token} {content : String} (h : .text content ∈ ts) :
    content.toList.length ≤ (ts.flatMap Token.written).length := by
  obtain ⟨ls, rs, rfl⟩ := List.append_of_mem h
  have hescaped := length_le_length_escapeQuoted content.toList
  simp only [List.flatMap_append, List.flatMap_cons, Token.written, List.length_append,
    List.length_cons]
  omega

end Node

/-! ### Reading directives back -/

/-- A reader of nested templates that reads printed templates back, up to a size. -/
def Nested.ReadsBack (nested : Nested) (size : Nat) : Prop :=
  ∀ base inCycle ns, Node.areWellFormed ns → Node.areScoped inCycle ns →
    (Node.printAll ns).toList.length ≤ size → nested base inCycle (Node.printAll ns).toList = .ok ns

namespace Directive

open TokenReader

variable {nested : Nested} {size : Nat} (hnested : nested.ReadsBack size) {inCycle : Bool}

include hnested

theorem reads_template {ns : List Node} (hform : Node.areWellFormed ns)
    (hscope : Node.areScoped inCycle ns) (hsize : (Node.printAll ns).toList.length ≤ size)
    (ts : List Token) :
    Reads (.text (Node.printAll ns) :: ts) ts (template nested inCycle) (· = ns) := by
  refine reads_bind (reads_text _) fun source hsource => reads_lift ?_
  rw [hsource]
  exact hnested _ _ ns hform hscope hsize

omit hnested in
/-- A directive with a name is read if its arguments are. -/
theorem reads_directive_of_arguments {span : Span} {name : String} {ts : List Token} {n : Node}
    (h : ∀ head : Located String, head.value = name →
      Reads ts [] (arguments nested span inCycle head) (· = n)) :
    Reads (.ident name :: .colon :: ts) [] (directive nested span inCycle) (· = n) := by
  refine reads_bind (reads_ident name) fun head hhead => ?_
  refine reads_bind reads_peek? fun following hfollowing => ?_
  rw [if_neg (by simp [hfollowing])]
  refine reads_bind reads_colon fun _ _ => reads_bind (h head hhead) fun node hnode => ?_
  exact reads_bind reads_finish fun _ _ => reads_pure hnode

/-- **The tokens of a directive are read back.** -/
theorem reads_directive {n : Node} (htext : n.isText = false) (hform : n.isWellFormed)
    (hscope : n.isScoped inCycle)
    (hsize : ∀ content, .text content ∈ n.tokens → content.toList.length ≤ size) (span : Span) :
    Reads n.tokens [] (directive nested span inCycle) (· = n) := by
  -- Each kind of node is read along the steps of the reader.  Nested templates are among the quoted
  -- texts of the directive, so they are small enough to be read back.
  cases n with
  | text literal => cases htext
  | container children isIndented =>
    refine reads_directive_of_arguments fun head hhead => ?_
    simp only [Node.isWellFormed, Bool.and_eq_true] at hform
    obtain ⟨rfl, hchildren⟩ := hform
    rw [arguments, hhead]
    refine reads_bind (reads_template hnested hchildren hscope ?_ _) fun children' hchildren' => ?_
    · exact hsize _ (by simp [Node.tokens])
    · exact reads_pure (by rw [hchildren'])
  | variant id main alternative =>
    refine reads_directive_of_arguments fun head hhead => ?_
    simp only [Node.isWellFormed, Bool.and_eq_true] at hform
    obtain ⟨⟨-, hmain⟩, halternative⟩ := hform
    obtain ⟨hmainScope, halternativeScope⟩ := Bool.and_eq_true_iff.mp hscope
    rw [arguments, hhead]
    refine reads_bind (reads_ident id) fun id' hid => reads_bind reads_comma fun _ _ => ?_
    refine reads_bind (reads_template hnested hmain hmainScope ?_ _) fun main' hmain' => ?_
    · exact hsize _ (by simp [Node.tokens])
    refine reads_bind reads_comma fun _ _ => ?_
    refine reads_bind (reads_template hnested halternative halternativeScope ?_ _)
      fun alternative' h' => ?_
    · exact hsize _ (by simp [Node.tokens])
    exact reads_pure (by rw [hid, hmain', h'])
  | placeholder id name =>
    cases name with
    | none =>
      refine reads_bind (reads_ident id) fun head hhead => ?_
      refine reads_bind reads_peek? fun following hfollowing => ?_
      rw [if_pos (by simp [hfollowing])]
      exact reads_bind reads_finish fun _ _ => reads_pure (by rw [hhead])
    | some name =>
      refine reads_directive_of_arguments fun head hhead => ?_
      simp only [Node.isWellFormed, Bool.and_eq_true, beq_iff_eq] at hform
      rw [arguments, hhead]
      refine reads_bind (reads_qualifiedName name span) fun name' hname => ?_
      exact reads_pure (by rw [hname, hform.2, Node.qualified])
  | cycle id body separator emptyCase =>
    refine reads_directive_of_arguments fun head hhead => ?_
    simp only [Node.isWellFormed, Bool.and_eq_true] at hform
    obtain ⟨⟨-, hbody⟩, hempty⟩ := hform
    obtain ⟨hbodyScope, hemptyScope⟩ := Bool.and_eq_true_iff.mp hscope
    rw [arguments, hhead]
    refine reads_bind (reads_ident id) fun id' hid => reads_bind reads_comma fun _ _ => ?_
    refine reads_bind (reads_template hnested hbody hbodyScope ?_ _) fun body' hbody' => ?_
    · exact hsize _ (by simp [Node.tokens])
    refine reads_bind reads_comma fun _ _ => ?_
    refine reads_bind (reads_text separator) fun separator' hseparator => ?_
    refine reads_bind reads_peek? fun following hfollowing => ?_
    -- The empty case may be left out, but it is always printed.
    rw [if_pos (by simp [hfollowing])]
    refine reads_bind reads_comma fun _ _ => ?_
    refine reads_bind (reads_template hnested hempty hemptyScope ?_ _) fun emptyCase' hempty' => ?_
    · exact hsize _ (by simp [Node.tokens])
    exact reads_pure (by rw [hid, hbody', hseparator, hempty'])
  | item index =>
    refine reads_directive_of_arguments fun head hhead => ?_
    rw [arguments, hhead]
    refine reads_bind (reads_integer index) fun index' hindex => ?_
    rw [if_pos (show inCycle = true from hscope)]
    exact reads_pure (by rw [hindex])
  | delimiter literal kind =>
    cases kind
    all_goals
      refine reads_directive_of_arguments fun head hhead => ?_
      rw [arguments, hhead]
      exact reads_bind (reads_text literal) fun literal' hliteral => reads_pure (by rw [hliteral])

/-- The content of a printed directive is read back. -/
theorem parse_tokens {n : Node} (htext : n.isText = false) (hform : n.isWellFormed)
    (hscope : n.isScoped inCycle) (hsize : (n.tokens.flatMap Token.written).length ≤ size)
    (extent : Token.Extent) (span : Span) :
    parse extent nested span inCycle (n.tokens.flatMap Token.written) = .ok n := by
  obtain ⟨htokens, hfailure⟩ := Token.lex_written (Node.all_isSpelled_tokens hform)
    (Node.areApart_tokens n) extent (span.start + 1)
  have hholds : (TokenStream.ofText extent (span.start + 1)
      (n.tokens.flatMap Token.written)).Holds n.tokens :=
    ⟨htokens, hfailure⟩
  obtain ⟨n', s', hrun, rfl, -⟩ := reads_directive hnested htext hform hscope
    (fun content h => (Node.length_le_of_mem_tokens h).trans hsize) span _ hholds
  simp only [parse]
  split
  · next hnil _ =>
    -- An empty content is refused, but a directive has a first word.
    obtain ⟨name, ts, hcons⟩ := Node.exists_ident_of_tokens htext
    rw [← hholds.1, hnil] at hcons
    cases hcons
  · exact bind_eq_ok_iff.mpr ⟨(n', s'), hrun, rfl⟩

end Directive

/-! ### Reading templates back -/

variable {extent : Token.Extent}

theorem toList_escape_cons (c : Char) (cs : List Char) :
    (escape (String.ofList (c :: cs))).toList =
      (if c = '{' ∨ c = '}' then [c, c] else [c]) ++ (escape (String.ofList cs)).toList := by
  simp [escape]

/-- Printed text is taken as literal characters. -/
theorem parseRest_escape {nested : Nested} {inCycle : Bool} {cs literal following : List Char}
    {nodes : List Node}
    (h : ∀ base,
      parseRest extent nested inCycle base (cs.reverse ++ literal) following = .ok nodes)
    (base : Nat) : parseRest extent nested inCycle base literal
      ((escape (String.ofList cs)).toList ++ following) = .ok nodes := by
  induction cs generalizing base literal with
  | nil => simpa [escape] using h base
  | cons c cs ih =>
    have hnext : ∀ base, parseRest extent nested inCycle base (c :: literal)
        ((escape (String.ofList cs)).toList ++ following) = .ok nodes := ih (by simpa using h)
    rw [toList_escape_cons]
    -- A brace stands doubled and is read as one character; any other is read as itself.
    by_cases hopen : c = '{'
    · subst hopen
      simpa [parseRest] using hnext (base + 2)
    by_cases hclose : c = '}'
    · subst hclose
      simpa [parseRest] using hnext (base + 2)
    simpa [parseRest, hopen, hclose] using hnext (base + c.utf8Size)

/-- A directive that can be read ends at its brace, unless its content begins with a brace itself.
-/
theorem parseRest_directive {nested : Nested} {inCycle : Bool} {content following : List Char}
    {n : Node} {nodes : List Node} (hopen : content.head? ≠ some '{')
    (hlex : (Token.lex extent 0 content).2 = none)
    (hparse : ∀ span, Directive.parse extent nested span inCycle content = .ok n)
    (h : ∀ base, parseRest extent nested inCycle base [] following = .ok nodes) (base : Nat)
    (literal : List Char) :
    parseRest extent nested inCycle base literal ('{' :: content ++ '}' :: following) =
      .ok (literalNodes literal ++ n :: nodes) := by
  have hclosing := closing?_of_lex hlex following
  -- Two opening braces would be read as a literal one.
  have hsingle : ∀ rest, content ++ '}' :: following = '{' :: rest → False := by
    intro rest heq
    cases content with
    | nil => cases heq
    | cons c cs => exact hopen (congrArg some (List.cons.inj heq).1)
  rw [List.cons_append, parseRest.eq_5 _ _ _ _ _ _ hsingle]
  split
  · next hnone =>
    rw [hclosing] at hnone
    cases hnone
  · next content' after hsome =>
    rw [hclosing] at hsome
    obtain ⟨rfl, rfl⟩ := Prod.mk.inj (Option.some.inj hsome)
    simp only [hparse, h, ok_bind, pure_eq_ok]

theorem literalNodes_reverse {t : String} (h : t ≠ "") :
    literalNodes t.toList.reverse = [.text t] := by
  simp [literalNodes, h]

namespace Node

theorem length_printAll_cons (n : Node) (ns : List Node) :
    (printAll (n :: ns)).toList.length = (print n).toList.length + (printAll ns).toList.length := by
  rw [printAll, String.toList_append, List.length_append]

/-- A well-formed node has a text that is not empty. -/
theorem toList_print_ne_nil {n : Node} (h : n.isWellFormed) : (print n).toList ≠ [] := by
  cases htext : n.isText with
  | true =>
    obtain ⟨t, rfl⟩ := exists_eq_text htext
    obtain ⟨c, cs, hchars⟩ : ∃ c cs, t.toList = c :: cs :=
      List.exists_cons_of_ne_nil (by simpa [isWellFormed] using h)
    rw [print, ← String.ofList_toList (s := t), hchars, toList_escape_cons]
    split <;> simp
  | false => simp [toList_print htext]

end Node

/-- Printed nodes are read back if nested ones are. -/
theorem parseRest_printAll {nested : Nested} {size : Nat} (hnested : nested.ReadsBack size)
    {inCycle : Bool} {ns : List Node} (hform : Node.areWellFormed ns)
    (hscope : Node.areScoped inCycle ns) (hsize : (Node.printAll ns).toList.length ≤ size + 1)
    (literal : List Char) (hliteral : literal = [] ∨ ns.head?.any Node.isText = false)
    (base : Nat) :
    parseRest extent nested inCycle base literal (Node.printAll ns).toList =
      .ok (literalNodes literal ++ ns) := by
  -- Literal characters already read are kept apart from `ns` only if it does not begin with more.
  induction ns generalizing base literal with
  | nil => simp [Node.printAll, parseRest]
  | cons n ns ih =>
    simp only [Node.areWellFormed, Bool.and_eq_true, Bool.not_eq_true'] at hform
    simp only [Node.areScoped, Bool.and_eq_true] at hscope
    obtain ⟨⟨hn, hbeside⟩, hns⟩ := hform
    rw [Node.length_printAll_cons] at hsize
    have hrest := ih hns hscope.2 (by omega)
    rw [Node.printAll, String.toList_append]
    cases htext : n.isText with
    | true =>
      obtain ⟨t, rfl⟩ := Node.exists_eq_text htext
      obtain rfl : literal = [] := by simpa [Node.isText] using hliteral
      have ht : t ≠ "" := by simpa [Node.isWellFormed] using hn
      have hbeside : ns.head?.any Node.isText = false := by simpa [Node.isText] using hbeside
      have hread := parseRest_escape (hrest (t.toList.reverse ++ []) (Or.inr hbeside)) base
      rw [String.ofList_toList, List.append_nil, literalNodes_reverse ht] at hread
      exact hread
    | false =>
      rw [Node.toList_print htext] at hsize ⊢
      simp only [List.length_append, List.length_cons, List.length_nil] at hsize
      have hlex := (Token.lex_written (Node.all_isSpelled_tokens hn) (Node.areApart_tokens n) extent
        0).2
      have hparse := Directive.parse_tokens hnested htext hn hscope.1 (by omega) extent
      rw [List.append_assoc, List.singleton_append]
      exact parseRest_directive (Node.head?_written_tokens_ne htext hn) hlex hparse
        (hrest [] (Or.inl rfl)) base literal

/-- A depth suffices for templates of that size. -/
theorem readsBack_parseWithin (extent : Token.Extent) (depth : Nat) :
    (parseWithin extent depth).ReadsBack depth := by
  induction depth with
  | zero =>
    intro base inCycle ns hform hscope hsize
    cases ns with
    | nil => rfl
    | cons n ns =>
      -- No depth is left for a node, but there is no text left for it either.
      simp only [Node.areWellFormed, Bool.and_eq_true] at hform
      have hpos := List.length_pos_iff.mpr (Node.toList_print_ne_nil hform.1.1)
      rw [Node.length_printAll_cons] at hsize
      omega
  | succ depth ih =>
    intro base inCycle ns hform hscope hsize
    exact parseRest_printAll ih hform hscope hsize [] (Or.inl rfl) base

/-- **Every well-formed template is read back.**  If identifiers are such, literal text is neither
empty nor beside literal text, and items stand in bodies of cycles, the text of the nodes is a
template for them, however deep they are nested and whatever braces, quotes and backslashes their
texts contain. -/
theorem parse_printAll (nodes : List Node) (hform : Node.areWellFormed nodes)
    (hscope : Node.areScoped false nodes) : parse (Node.printAll nodes) = .ok nodes :=
  readsBack_parseWithin _ _ 0 false nodes hform hscope (Nat.le_of_eq String.length_toList)

/-- Braces beside directives, and quotes two templates deep. -/
theorem parse_printAll_rows :
    let source := "a\x7b\x7b\x7bcycle:rows,\"\\\"\x7bitem:0\x7d" ++
      "\x7bcycle:cells,\\\"\x7bitem:1\x7d\\\",\\\"\x7d\\\\\\\"\\\"," ++
      "\\\"\x7bitem:1\x7d\\\"\x7d\",\";\",\"\x7bid\x7d\"\x7d\x7d\x7d\x7bschema:main.t,\"\\\"\"\x7d"
    let nodes : List Node := [.text "a\x7b",
      .cycle "rows" [.text "\"", .item 0, .cycle "cells" [.item 1] "\x7d\"" [.item 1]] ";"
        [.placeholder "id" none],
      .text "\x7d", .qualified ⟨none, "main", "t", '"'⟩]
    Node.printAll nodes = source ∧ parse source = .ok nodes := by
  intro source nodes
  have hprint : Node.printAll nodes = source := rfl
  exact ⟨hprint, hprint ▸ parse_printAll nodes (by decide) (by decide)⟩

end Template

end QueryPlanner
