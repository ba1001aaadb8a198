import QueryAssist.Completion.TypeContext
import QueryAssist.Proofs.Grammar.Sentence

/-! # Open documents

A document that ends inside selection sets that are still open. Each was begun by a head, which says
what is selected from in it, after any complete definitions or selections. Main definitions:

* **`Head`** — what a selection set belongs to: an operation, a fragment, a field.
* **`Head.Writes`** — the tokens of a head.
* **`Opens hs w`** — the tokens of a document that ends at the brace of the innermost selection set.
* **`Hosts hs h w`** — those of a document that ends after a head, where its directives can be.
* **`Schema.typeIn`**, **`Schema.selected`** — the type that is selected from, by the heads alone.
  -/

namespace QueryAssist

open Step Terminal

/-- The token of a punctuation mark. -/
def Token.mark (text : String) : Token := ⟨.punctuation, text⟩

/-- The token of a name. -/
def Token.word (text : String) : Token := ⟨.name, text⟩

/-- A **head** is what a selection set belongs to. A spread has none, but like the others it can
have directives. -/
inductive Head where
  /-- A query. -/
  | query
  /-- A mutation. -/
  | mutation
  /-- A subscription. -/
  | subscription
  /-- A fragment on a type. -/
  | fragment (type : String)
  /-- A field, with or without an alias. -/
  | field (name : String)
  /-- An inline fragment, which may be on a type. -/
  | inline (condition : Option String)
  /-- The spread of a fragment. -/
  | spread
  deriving DecidableEq, Repr, Inhabited

namespace Head

/-- Whether the head begins a definition. -/
def isDefinition : Head → Bool
  | query | mutation | subscription | fragment _ => true
  | _ => false

/-- Whether a selection set belongs to the head. -/
def hasSelections : Head → Bool
  | spread => false
  | _ => true

/-- A definition has selections. -/
theorem hasSelections_of_isDefinition {h : Head} (hd : h.isDefinition = true) :
    h.hasSelections = true := by
  cases h with
  | spread => cases hd
  | _ => rfl

/-- The keyword of an operation. -/
def keyword? : Head → Option String
  | query => some "query"
  | mutation => some "mutation"
  | subscription => some "subscription"
  | _ => none

end Head

/-- The tokens that **name a field**: its name, after an alias if it has one. -/
inductive NamesField : String → List SpacedToken → Prop
  /-- The name alone. -/
  | plain {x : SpacedToken} (hx : x.token.kind = .name) : NamesField x.token.text [x]
  /-- An alias, which is on one line with its colon, and the name. -/
  | aliased {a c x : SpacedToken} (ha : a.token.kind = .name) (hl : a.StaysOnLine)
      (hc : c.token = .mark ":") (hx : x.token.kind = .name) : NamesField x.token.text [a, c, x]

/-- The tokens that **write a head**, up to where its directives can be. -/
inductive Head.Writes : Head → List SpacedToken → Prop
  /-- An operation that may have a name and variables. -/
  | operation {h : Head} {word : String} {x : SpacedToken} {u : List SpacedToken}
      (hw : h.keyword? = some word) (hx : x.token = .word word)
      (hu : Derives [optional (terminal (name "def")), optional (rule .variableDefinitions)] u) :
      Writes h (x :: u)
  /-- A fragment that may have a name, on a type. -/
  | fragment {x o t : SpacedToken} {u : List SpacedToken} (hx : x.token = .word "fragment")
      (hu : Derives [optional (terminal ((name "def").butNot [keyword "on"]))] u)
      (ho : o.token = .word "on") (ht : t.token.kind = .name) :
      Writes (.fragment t.token.text) (x :: (u ++ [o, t]))
  /-- A field that may have arguments. -/
  | field {n : String} {u v : List SpacedToken} (hn : NamesField n u)
      (hv : Derives [optional (rule .arguments)] v) : Writes (.field n) (u ++ v)
  /-- An inline fragment on no type of its own. -/
  | inline {d : SpacedToken} (hd : d.token = .mark "...") (hl : d.StaysOnLine) :
      Writes (.inline none) [d]
  /-- An inline fragment on a type. -/
  | inlineOn {d o t : SpacedToken} (hd : d.token = .mark "...") (hl : d.StaysOnLine)
      (ho : o.token = .word "on") (ht : t.token.kind = .name) :
      Writes (.inline (some t.token.text)) [d, o, t]
  /-- A spread of a fragment that is not named `on`. -/
  | spread {d n : SpacedToken} (hd : d.token = .mark "...") (hl : d.StaysOnLine)
      (hn : n.token.kind = .name) (ho : n.token.text ≠ "on") : Writes .spread [d, n]

/-- A document **opens** some selection sets, each in the one before, and ends at the brace of the
last: complete definitions, and then one head after another, each after complete selections and with
complete directives before its brace. -/
inductive Opens : List Head → List SpacedToken → Prop
  /-- A query without its keyword. -/
  | shorthand {w : List SpacedToken} {b : SpacedToken} (hw : Derives [list (rule .definition)] w)
      (hb : b.token = .mark "\x7b") : Opens [.query] (w ++ [b])
  /-- An operation or a fragment. -/
  | definition {h : Head} {w u v : List SpacedToken} {b : SpacedToken}
      (hw : Derives [list (rule .definition)] w) (hd : h.isDefinition = true) (hu : h.Writes u)
      (hv : Derives [list (rule .directive)] v) (hb : b.token = .mark "\x7b") :
      Opens [h] (w ++ (u ++ (v ++ [b])))
  /-- A field or an inline fragment. -/
  | selection {hs : List Head} {h : Head} {w z u v : List SpacedToken} {b : SpacedToken}
      (ho : Opens hs w) (hz : Derives [list (rule .selection)] z) (hd : h.isDefinition = false)
      (hh : h.hasSelections = true) (hu : h.Writes u) (hv : Derives [list (rule .directive)] v)
      (hb : b.token = .mark "\x7b") : Opens (hs ++ [h]) (w ++ (z ++ (u ++ (v ++ [b]))))

/-- A document **hosts** directives: it ends after a head, in some selection sets. -/
inductive Hosts : List Head → Head → List SpacedToken → Prop
  /-- After the head of a definition. -/
  | definition {h : Head} {w u : List SpacedToken} (hw : Derives [list (rule .definition)] w)
      (hd : h.isDefinition = true) (hu : h.Writes u) : Hosts [] h (w ++ u)
  /-- After the head of a selection. -/
  | selection {hs : List Head} {h : Head} {w z u : List SpacedToken} (ho : Opens hs w)
      (hz : Derives [list (rule .selection)] z) (hd : h.isDefinition = false) (hu : h.Writes u) :
      Hosts hs h (w ++ (z ++ u))

namespace Schema

/-- The type **inside a head**, from the type around it: the root type of an operation, the type
that a fragment is on, the type of a field. -/
def typeIn (s : Schema) (around : Option TypeRef) : Head → Option TypeRef
  | .query => s.query.bind s.ref?
  | .mutation => s.mutation.bind s.ref?
  | .subscription => s.subscription.bind s.ref?
  | .fragment t => s.ref? t
  | .field n => (s.fieldOf? (s.baseType? around) n).map (·.type)
  | .inline (some t) => s.ref? t
  | .inline none | .spread => around

/-- The type that is **selected from** inside some heads, each in the one before. -/
def selected (s : Schema) (hs : List Head) : Option TypeRef := hs.foldl s.typeIn none

/-- What is selected from inside one more head is the type inside it. -/
theorem selected_concat (s : Schema) (hs : List Head) (h : Head) :
    s.selected (hs ++ [h]) = s.typeIn (s.selected hs) h := by
  simp [selected]

end Schema

end QueryAssist
