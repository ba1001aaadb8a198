import QueryAssist.CommandLine.Run
import QueryAssist.Proofs.Settings.Request

/-! # Runs that complete

A run finds its settings and its document without a trace, then its schema, and completes at a
cursor in the end. Main definitions:

* **`Run.unreported`** — what comes of a run, apart from what it reports.
* **`SchemaFile.loadNamed`**, **`schemaFound`** — the schema in the file of a path, and what comes
  of it.
* **`completeDocument`**, **`completeAt`** — a run once the document is found, and once the schema
  is found, too.
* **`CompleteOptions.Finds`** — whether a run finds its settings and its document.

Main statements: `Run.unreported_bind`, a run step by step, and `unreported_runComplete_congr`, runs
with different cursors that have the same outcome there come to the same. -/

namespace QueryAssist

namespace Run

variable {α β : Type} {x : Run α} {f g : α → Run β} {env : Surroundings} {s s' : Session}

/-- A session **apart from what is reported**. -/
def silent (s : Session) : Session := { s with reported := "" }

/-- What comes of a run **apart from what is reported**. -/
def unreported : EStateM.Result Break Session α → EStateM.Result Break Session α
  | .ok a s => .ok a (silent s)
  | .error e s => .error e (silent s)

/-- A run goes on from what its first part gives and leaves. -/
theorem bind_of_ok {a : α} (h : x env s = .ok a s') : (x >>= f) env s = f a env s' := by
  change EStateM.bind (x env) (fun a => f a env) s = _
  rw [EStateM.bind, h]

/-- A run breaks off where its first part does. -/
theorem bind_of_error {e : Break} (h : x env s = .error e s') : (x >>= f) env s = .error e s' := by
  change EStateM.bind (x env) (fun a => f a env) s = _
  rw [EStateM.bind, h]

/-- Two runs that begin alike come to the same, if they go on to the same. -/
theorem unreported_bind
    (h : ∀ a s', x env s = .ok a s' → unreported (f a env s') = unreported (g a env s')) :
    unreported ((x >>= f) env s) = unreported ((x >>= g) env s) := by
  cases hx : x env s with
  | ok a s' =>
    rw [bind_of_ok hx, bind_of_ok hx]
    exact h a s' hx
  | error e s' => rw [bind_of_error hx, bind_of_error hx]

/-- So does a run from two sessions that differ in their reports, if no part of it reads them. -/
theorem unreported_bind_congr (hx : unreported (x env s) = unreported (x env s'))
    (hf : ∀ a t t', silent t = silent t' → unreported (f a env t) = unreported (f a env t')) :
    unreported ((x >>= f) env s) = unreported ((x >>= f) env s') := by
  cases h : x env s with
  | ok a t =>
    cases h' : x env s' with
    | ok a' t' =>
      rw [h, h'] at hx
      obtain ⟨rfl, ht⟩ := EStateM.Result.ok.inj hx
      rw [bind_of_ok h, bind_of_ok h']
      exact hf _ _ _ ht
    | error e' t' =>
      rw [h, h'] at hx
      cases hx
  | error e t =>
    cases h' : x env s' with
    | ok a' t' =>
      rw [h, h'] at hx
      cases hx
    | error e' t' =>
      rw [h, h'] at hx
      obtain ⟨rfl, ht⟩ := EStateM.Result.error.inj hx
      rw [bind_of_error h, bind_of_error h']
      exact congrArg (EStateM.Result.error e) ht

/-- A report shows in nothing else. -/
theorem exists_debug (source message : String) (env : Surroundings) (s : Session) :
    ∃ s', debug source message env s = .ok () s' ∧ silent s' = silent s := by
  have hdebug : debug source message env s =
      (if env.debug then report ("DEBUG:gqlcomplete.domains." ++ source ++ ":" ++ message ++ "\n")
        else pure ()) env s := rfl
  rw [hdebug]
  split
  · exact ⟨_, rfl, rfl⟩
  · exact ⟨s, rfl, rfl⟩

/-- Loading settings leaves no trace. -/
theorem eq_of_stored_load {store : SettingsStore} {ss : Settings}
    (h : stored store.load env s = .ok ss s') : s' = s ∧ store.loadFrom s.files = .ok ss := by
  unfold stored at h
  rw [SettingsStore.load_eq] at h
  cases hs : store.loadFrom s.files with
  | ok ss' =>
    rw [hs] at h
    cases h
    exact ⟨rfl, rfl⟩
  | error e =>
    rw [hs] at h
    cases h

end Run

/-! ### What a run finds -/

variable {env : Surroundings} {s s' : Session}

/-- The file of the settings is found without a trace, too. -/
theorem settingsStore_eq (env : Surroundings) (s : Session) : settingsStore env s =
    match SettingsStore.choose? env.home env.folder env.settingsPath with
    | some store => .ok store s
    | none => .error .unknownHome s := by
  have hread : (read : Run Surroundings) env s = .ok env s := rfl
  unfold settingsStore
  rw [Run.bind_of_ok hread]
  cases SettingsStore.choose? env.home env.folder env.settingsPath <;> rfl

/-- Finding the file of the settings changes nothing. -/
theorem eq_of_settingsStore {store : SettingsStore} (h : settingsStore env s = .ok store s') :
    s' = s ∧ SettingsStore.choose? env.home env.folder env.settingsPath = some store := by
  rw [settingsStore_eq] at h
  split at h
  · next hc =>
    cases h
    exact ⟨rfl, hc⟩
  · cases h

/-- The schema in the file of a written path. -/
def SchemaFile.loadNamed (homes : Homes) (r : SchemaReader) (path : String) (t : FileTree) :
    Except SchemaFileError Schema := do
  (← SchemaFile.named homes path).load t r

/-- The file of a path of one letter lies in the working folder. -/
theorem SchemaFile.named_letter (homes : Homes) :
    SchemaFile.named homes "s" = .ok ⟨{ names := ["s"] }⟩ := by
  have hsplit : "s".splitOn "/" = ["s"] := by
    rw [String.splitOn, if_neg (by decide), String.splitOnAux, if_neg (by decide),
      if_neg (by decide), String.splitOnAux, if_pos (by decide)]
    decide
  have hpath : Path.ofText "s" = { names := ["s"] } := by
    rw [Path.ofText, Path.parts, hsplit]
    decide
  have htilde : "s".startsWith "~" = false := by decide +kernel
  rw [named, hpath, Path.expandHome?]
  dsimp only
  rw [htilde, Bool.and_false]
  rfl

/-- What comes of a schema that is found, or of the error that is met instead: one with a message is
printed, and any other breaks the run off. -/
def schemaFound : Except SchemaFileError Schema → Run (Option Schema)
  | .ok schema => pure (some schema)
  | .error e =>
    match e.message? with
    | some m => do
      Run.printLine ("Error: " ++ m)
      pure none
    | none => throw e.toBreak

/-- **Reading the schema** leaves a report at most before it comes to what is found. -/
theorem exists_readSchema (path : String) (env : Surroundings) (s : Session) :
    ∃ s', Run.silent s' = Run.silent s ∧ readSchema path env s =
      schemaFound (SchemaFile.loadNamed env.home env.reader path s.files) env s' := by
  have hread : (read : Run Surroundings) env s = .ok env s := rfl
  have hget : (get : Run Session) env s = .ok s s := rfl
  unfold readSchema SchemaFile.loadNamed
  rw [Run.bind_of_ok hread]
  cases SchemaFile.named env.home path with
  | error e => exact ⟨s, rfl, rfl⟩
  | ok f =>
    dsimp only
    rw [Run.bind_of_ok hget]
    change ∃ s', _ ∧ _ = schemaFound (f.load s.files env.reader) env s'
    unfold SchemaFile.load
    cases f.text s.files with
    | error e => exact ⟨s, rfl, rfl⟩
    | ok cs =>
      obtain ⟨s', hdebug, hs⟩ := Run.exists_debug "schema.loader" f.report env s
      change ∃ s', _ ∧ _ = schemaFound (f.schemaOf cs env.reader) env s'
      dsimp only
      generalize f.schemaOf cs env.reader = loaded
      exact ⟨s', hs, Run.bind_of_ok hdebug⟩

/-! ### What a run does -/

/-- The end of a run: the outcome at a cursor is reported, and the suggestions are printed. -/
def completeAt (settings : Settings) (format : Option String) (document : List Char)
    (schema : Schema) (c : Cursor) : Run Nat :=
  match Outcome.atCursor schema document c with
  | .error f => throw (.schema f)
  | .ok outcome => do
    Run.debug "query.completion.completion" (outcome.report c)
    printSuggestions ((nonEmpty format).or (settings.valueOr .outputFormat)) outcome.suggestions
    pure 0

/-- The run of a document that is read, once the settings are loaded. -/
def completeDocument (o : CompleteOptions) (settings : Settings) (path : String)
    (document : List Char) : Run Nat := do
  match ← readSchema path with
  | none => pure 1
  | some schema => completeAt settings o.format document schema (o.cursor document)

/-- What is printed does not depend on what was reported before. -/
theorem unreported_print_congr (text : String) (h : Run.silent s' = Run.silent s) :
    Run.unreported (Run.print text env s') = Run.unreported (Run.print text env s) := by
  obtain ⟨files, printed, reported⟩ := s
  obtain ⟨files', printed', reported'⟩ := s'
  obtain ⟨rfl, rfl, -⟩ := Session.mk.inj h
  rfl

/-- Nor do the suggestions that are printed, in either format. -/
theorem unreported_printSuggestions_congr (format : Option String) (ss : List Suggestion)
    (h : Run.silent s' = Run.silent s) :
    Run.unreported (printSuggestions format ss env s') =
      Run.unreported (printSuggestions format ss env s) := by
  unfold printSuggestions
  split
  · exact unreported_print_congr _ h
  · cases printedTable ss with
    | ok text => exact unreported_print_congr text h
    | error f => exact congrArg (EStateM.Result.error _) h

/-- Cursors with the **same outcome** come to the same. -/
theorem unreported_completeAt_congr {settings : Settings} {format : Option String}
    {document : List Char} {schema : Schema} {c d : Cursor}
    (h : Outcome.atCursor schema document c = Outcome.atCursor schema document d) :
    Run.unreported (completeAt settings format document schema c env s) =
      Run.unreported (completeAt settings format document schema d env s) := by
  unfold completeAt
  rw [h]
  cases Outcome.atCursor schema document d with
  | error f => rfl
  | ok outcome =>
    dsimp only
    obtain ⟨sc, hc, hsc⟩ :=
      Run.exists_debug "query.completion.completion" (outcome.report c) env s
    obtain ⟨sd, hd, hsd⟩ :=
      Run.exists_debug "query.completion.completion" (outcome.report d) env s
    rw [Run.bind_of_ok hc, Run.bind_of_ok hd]
    refine Run.unreported_bind_congr ?_ fun _ _ _ h => congrArg (EStateM.Result.ok _) h
    exact unreported_printSuggestions_congr _ _ (hsc.trans hsd.symm)

variable {o : CompleteOptions}

/-- A run that completes, from the document on as one part. -/
theorem runComplete_eq (o : CompleteOptions) : runComplete o = (do
    let settings ← Run.stored (← settingsStore).load
    match (nonEmpty o.schema).or (nonEmpty (settings.valueOr .schemaPath)) with
    | none => do
      Run.printLine
        "Error: No schema given. Pass --schema or set 'schema_path' in settings."
      pure 1
    | some path =>
      match ← readDocument o with
      | none => pure 1
      | some document => completeDocument o settings path document) := rfl

/-- A run **finds** its settings, the path of the schema and its document. -/
structure CompleteOptions.Finds (o : CompleteOptions) (env : Surroundings) (s : Session)
    (settings : Settings) (path : String) (document : List Char) : Prop where
  /-- There is a file of the settings, and it is loaded. -/
  loaded : ∃ store, SettingsStore.choose? env.home env.folder env.settingsPath = some store ∧
    store.loadFrom s.files = .ok settings
  /-- The path of the schema is given, or it is a setting. -/
  named : (nonEmpty o.schema).or (nonEmpty (settings.valueOr .schemaPath)) = some path
  /-- The document is read. -/
  read : readDocument o env s = .ok (some document) s

/-- A run that finds them goes on with the document. -/
theorem runComplete_of_finds {settings : Settings} {path : String} {document : List Char}
    (h : o.Finds env s settings path document) :
    runComplete o env s = completeDocument o settings path document env s := by
  obtain ⟨store, hstore, hload⟩ := h.loaded
  have hstore' : settingsStore env s = .ok store s := by rw [settingsStore_eq, hstore]
  have hload' : Run.stored store.load env s = .ok settings s := by
    rw [Run.stored, SettingsStore.load_of_loadFrom hload]
  rw [runComplete_eq, Run.bind_of_ok hstore', Run.bind_of_ok hload', h.named]
  exact Run.bind_of_ok h.read

/-- A run that finds everything prints the suggestions at its cursor, here as JSON. -/
theorem runComplete_of_outcome {settings : Settings} {path : String} {document : List Char}
    {schema : Schema} {outcome : Outcome} (h : o.Finds env s settings path document)
    (hschema : SchemaFile.loadNamed env.home env.reader path s.files = .ok schema)
    (hout : Outcome.atCursor schema document (o.cursor document) = .ok outcome)
    (hformat : o.format = some "json") :
    ∃ s', runComplete o env s = .ok 0 s' ∧
      s'.printed = s.printed ++ printedJson outcome.suggestions := by
  obtain ⟨s₁, hs₁, hread⟩ := exists_readSchema path env s
  rw [hschema] at hread
  obtain ⟨s₂, hdebug, hs₂⟩ :=
    Run.exists_debug "query.completion.completion" (outcome.report (o.cursor document)) env s₁
  have hprinted : s₂.printed = s.printed := by
    change (Run.silent s₂).printed = (Run.silent s).printed
    rw [hs₂, hs₁]
  rw [runComplete_of_finds h, completeDocument, Run.bind_of_ok hread]
  dsimp only
  rw [completeAt, hout, hformat]
  dsimp only
  rw [Run.bind_of_ok hdebug, ← hprinted]
  exact ⟨_, rfl, rfl⟩

/-- Runs with **different cursors** come to the same, apart from what they report, if the outcomes
at the two cursors are the same for every schema. -/
theorem unreported_runComplete_congr (row column : Option Int)
    (h : ∀ document s', readDocument o env s = .ok (some document) s' → ∀ schema,
      Outcome.atCursor schema document (o.cursor document) =
        Outcome.atCursor schema document ({ o with row, column }.cursor document)) :
    Run.unreported (runComplete o env s) =
      Run.unreported (runComplete { o with row, column } env s) := by
  rw [runComplete_eq, runComplete_eq]
  refine Run.unreported_bind fun store s₁ hstore => ?_
  obtain ⟨rfl, -⟩ := eq_of_settingsStore hstore
  refine Run.unreported_bind fun settings s₂ hload => ?_
  obtain ⟨rfl, -⟩ := Run.eq_of_stored_load hload
  cases (nonEmpty o.schema).or (nonEmpty (settings.valueOr .schemaPath)) with
  | none => rfl
  | some path =>
    refine Run.unreported_bind fun document? s₃ hread => ?_
    cases document? with
    | none => rfl
    | some document =>
      refine Run.unreported_bind fun schema? s₄ _ => ?_
      cases schema? with
      | none => rfl
      | some schema => exact unreported_completeAt_congr (h document s₃ hread schema)

end QueryAssist
