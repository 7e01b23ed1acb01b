import TokenStream.Session
import TokenStream.Proofs.Sources

/-!
# The outcome of a run

A run settles its configuration, reads its source and lists the tokens. Each of these steps may end
it. What reaches the listing is a format and a source text and nothing else, so that the levels and
the layout of the log have no part in the exit code and the output.

**Input** a command line that asks for a run, and a world to read from.

**Results** when the configuration is settled and with which format, what a listing leaves of a run,
and what follows for two runs that reach the same listing.
-/

namespace TokenStream

section Configurations

variable {config fromFile : Config}

/-- The format of a run: the one that is named on the command line, or else the one of the
configuration that was loaded. -/
def Config.EffectiveFormat (fromFile : Config) (word : Option (List Char)) (format : Format) :
    Prop :=
  match word with
  | none => format = fromFile.output
  | some w => Format.ofWord? w = some format

/-- If a level is named, it is one. -/
def LevelAccepted (word : Option (List Char)) : Prop :=
  ∀ w ∈ word, (Level.ofWord? w).isSome = true

theorem Config.exists_overrideFormat_iff (word : Option (List Char)) (format : Format) :
    (∃ config, fromFile.overrideFormat word = .ok config ∧ config.output = format) ↔
      fromFile.EffectiveFormat word format := by
  cases word with
  | none => simp [overrideFormat, EffectiveFormat, eq_comm]
  | some w =>
      cases hformat : Format.ofWord? w with
      | none => simp [overrideFormat, EffectiveFormat, hformat]
      | some named => simp [overrideFormat, EffectiveFormat, hformat]

theorem Config.exists_overrideLevel_iff (word : Option (List Char)) (format : Format) :
    (∃ settled, config.overrideLevel word = .ok settled ∧ settled.output = format) ↔
      LevelAccepted word ∧ config.output = format := by
  cases word with
  | none => simp [overrideLevel, LevelAccepted]
  | some w =>
      cases hlevel : Level.ofWord? w with
      | none => simp [overrideLevel, LevelAccepted, hlevel]
      | some level => simp [overrideLevel, LevelAccepted, hlevel]

theorem bind_eq_ok_iff
    {ε α β : Type} {x : Except ε α} {f : α → Except ε β} {b : β} :
    x >>= f = .ok b ↔ ∃ a, x = .ok a ∧ f a = .ok b := by
  cases x <;> simp [Bind.bind, Except.bind]

/-- A configuration is settled if it is loaded and the words of the command line are understood. -/
theorem Config.exists_build_iff
    (world : World) (path word level : Option (List Char)) (format : Format) :
    (∃ config, Config.build world path word level = .ok config ∧ config.output = format) ↔
      (∃ fromFile, Config.load world path = .ok fromFile ∧
        fromFile.EffectiveFormat word format) ∧ LevelAccepted level := by
  simp only [Config.build, bind_eq_ok_iff]
  constructor
  · rintro ⟨config, ⟨fromFile, hload, withFormat, hformat, hlevel⟩, rfl⟩
    obtain ⟨haccepted, houtput⟩ :=
      (exists_overrideLevel_iff level config.output).mp ⟨config, hlevel, rfl⟩
    have heffective := (exists_overrideFormat_iff word config.output).mp
      ⟨withFormat, hformat, houtput⟩
    exact ⟨⟨fromFile, hload, heffective⟩, haccepted⟩
  · rintro ⟨⟨fromFile, hload, heffective⟩, haccepted⟩
    obtain ⟨withFormat, hformat, houtput⟩ := (exists_overrideFormat_iff word format).mpr heffective
    obtain ⟨config, hlevel, hsettled⟩ :=
      (exists_overrideLevel_iff level format).mpr ⟨haccepted, houtput⟩
    exact ⟨config, ⟨fromFile, hload, withFormat, hformat, hlevel⟩, hsettled⟩

end Configurations

namespace Session

/-- A run with these options in this world gets as far as listing this text in this format. -/
structure Reaches (world : World) (options : CommandLine.Options) (format : Format)
    (source : List Char) : Prop where
  configured : ∃ fromFile, Config.load world options.config = .ok fromFile ∧
    fromFile.EffectiveFormat options.format format
  level : LevelAccepted options.logLevel
  source : SourceOf world options.file source

section Runs

variable {world : World} {options : CommandLine.Options} {format : Format} {source : List Char}

/-- What is left of a run that has reached a listing. -/
theorem ofOptions_of_reaches
    (h : Reaches world options format source) :
    ∃ config layout, config.output = format ∧
      ofOptions world options = onSource config layout source := by
  obtain ⟨config, hbuild, houtput⟩ := (Config.exists_build_iff world options.config options.format
    options.logLevel format).mpr ⟨h.configured, h.level⟩
  have hsource := (readSource_eq_ok_iff options.file).mpr h.source
  refine ⟨config, options.logFormat.getD .compact, houtput, ?_⟩
  simp only [ofOptions, hbuild, hsource]

theorem ofOptions_of_not_reaches
    (h : ¬ ∃ format source, Reaches world options format source) :
    (ofOptions world options).code = 1 ∧ (ofOptions world options).stdout = [] := by
  cases hbuild : Config.build world options.config options.format options.logLevel with
  | error e => simp [ofOptions, hbuild]
  | ok config =>
      cases hread : readSource world options.file with
      | error e => simp [ofOptions, hbuild, hread]
      | ok source =>
          obtain ⟨hconfigured, hlevel⟩ := (Config.exists_build_iff _ _ _ _ config.output).mp
            ⟨config, hbuild, rfl⟩
          exact absurd ⟨config.output, source, hconfigured, hlevel,
            (readSource_eq_ok_iff options.file).mp hread⟩ h

/-- Of the configuration, only the format is seen in the code and the output. -/
theorem onSource_congr
    {config config' : Config}
    (h : config'.output = config.output)
    (layout layout' : Log.Layout)
    (source : List Char) :
    (onSource config' layout' source).code = (onSource config layout source).code ∧
      (onSource config' layout' source).stdout = (onSource config layout source).stdout := by
  simp only [onSource, h]
  split <;> exact ⟨rfl, rfl⟩

theorem onSource_of_ok
    {tokens : List Token}
    (h : tokenize source = .ok tokens)
    (config : Config)
    (layout : Log.Layout) :
    (onSource config layout source).code = 0 ∧
      (onSource config layout source).stdout = Listing.output source config.output := by
  have houtcome := Listing.outcome_eq source config.output
  rw [h] at houtcome
  simp only [onSource, houtcome, Listing.output, and_self]

theorem onSource_of_error
    {e : LexError}
    (h : tokenize source = .error e)
    (config : Config)
    (layout : Log.Layout) :
    (onSource config layout source).code = 1 ∧
      (onSource config layout source).stdout = Listing.output source config.output ∧
      e.report source <:+ (onSource config layout source).stderr := by
  have houtcome := Listing.outcome_eq source config.output
  rw [h] at houtcome
  simp only [onSource, houtcome, Listing.output, complaint, List.suffix_append, and_self]

/-- A run that reaches a text without an error. -/
theorem ofOptions_of_ok
    {tokens : List Token}
    (h : Reaches world options format source)
    (htokens : tokenize source = .ok tokens) :
    (ofOptions world options).code = 0 ∧
      (ofOptions world options).stdout = Listing.output source format := by
  obtain ⟨config, layout, rfl, hon⟩ := ofOptions_of_reaches h
  rw [hon]
  exact onSource_of_ok htokens config layout

/-- A run that reaches a text with an error. -/
theorem ofOptions_of_error
    {e : LexError}
    (h : Reaches world options format source)
    (herror : tokenize source = .error e) :
    (ofOptions world options).code = 1 ∧
      (ofOptions world options).stdout = Listing.output source format ∧
      e.report source <:+ (ofOptions world options).stderr := by
  obtain ⟨config, layout, rfl, hon⟩ := ofOptions_of_reaches h
  rw [hon]
  exact onSource_of_error herror config layout

/-- Two runs that reach the same listing differ in what they log at most. -/
theorem ofOptions_congr
    {world' : World} {options' : CommandLine.Options}
    (h : Reaches world options format source)
    (h' : Reaches world' options' format source) :
    (ofOptions world' options').code = (ofOptions world options).code ∧
      (ofOptions world' options').stdout = (ofOptions world options).stdout := by
  obtain ⟨config, layout, rfl, hon⟩ := ofOptions_of_reaches h
  obtain ⟨config', layout', houtput, hon'⟩ := ofOptions_of_reaches h'
  rw [hon, hon']
  exact onSource_congr houtput layout layout' source

theorem ofArguments_of_run
    {arguments : List (List Char)}
    (h : CommandLine.parse arguments = .ok (.run options))
    (world : World) :
    ofArguments world arguments = ofOptions world options := by
  simp only [ofArguments, h]

/-- What is written of a text with an error: in the text format, the lines of the tokens in front of
the error. -/
theorem output_of_error
    {e : LexError}
    (h : tokenize source = .error e)
    (format : Format) :
    Listing.output source format =
      match format with
      | .text => Text.utf8 (Listing.lines (Reader.ofSource source).readAll.tokens)
      | .json => [] := by
  have hresult : (Reader.ofSource source).readAll.result = .error e := h
  have hcontents := (Listing.listed_ofReading format (Reader.ofSource source).readAll
    none).contents_eq
  refine hcontents.trans ?_
  cases format with
  | text => rfl
  | json => simp [Sink.cut, Listing.whole, hresult]

end Runs
end Session

/-- **The outcome of a run.** A run succeeds exactly if it reaches a listing of a text that is read
without an error, and its output is then the whole listing. It fails with the code one and no output
otherwise, but for a text with an error: the lines of the tokens in front of it are written in the
text format, and the report of the error ends what is complained of. Two runs that reach the same
listing have the same code and output, whatever their logs are told to show. -/
theorem run_outcome
    {arguments : List (List Char)} {options : CommandLine.Options}
    (world : World)
    (h : CommandLine.parse arguments = .ok (.run options)) :
    let session := Session.ofArguments world arguments
    (session.code = 0 ↔ ∃ format source tokens,
      Session.Reaches world options format source ∧ tokenize source = .ok tokens) ∧
    (∀ format source tokens,
      Session.Reaches world options format source → tokenize source = .ok tokens →
      session.stdout = (list source format (Sink.empty none)).sink.contents ∧
      session.stdout = Text.utf8 (Listing.wholeOf tokens format)) ∧
    (∀ format source e,
      Session.Reaches world options format source → tokenize source = .error e →
      session.code = 1 ∧
      session.stdout = (match format with
        | .text => Text.utf8 (Listing.lines (Reader.ofSource source).readAll.tokens)
        | .json => []) ∧
      e.report source <:+ session.stderr) ∧
    ((¬ ∃ format source, Session.Reaches world options format source) →
      session.code = 1 ∧ session.stdout = []) ∧
    (∀ format source world' arguments' options',
      Session.Reaches world options format source →
      CommandLine.parse arguments' = .ok (.run options') →
      Session.Reaches world' options' format source →
      (Session.ofArguments world' arguments').code = session.code ∧
      (Session.ofArguments world' arguments').stdout = session.stdout) := by
  intro session
  have hsession : session = Session.ofOptions world options := Session.ofArguments_of_run h world
  rw [hsession]
  refine ⟨⟨?_, ?_⟩, ?_, ?_, Session.ofOptions_of_not_reaches, ?_⟩
  · -- a run that stops on the way or meets an error has the code one
    intro hzero
    by_cases hreaches : ∃ format source, Session.Reaches world options format source
    · obtain ⟨format, source, hreach⟩ := hreaches
      cases htokens : tokenize source with
      | ok tokens => exact ⟨format, source, tokens, hreach, htokens⟩
      | error e =>
          have hone := (Session.ofOptions_of_error hreach htokens).1
          exact absurd (hone.symm.trans hzero) (by decide)
    · have hone := (Session.ofOptions_of_not_reaches hreaches).1
      exact absurd (hone.symm.trans hzero) (by decide)
  · rintro ⟨format, source, tokens, hreach, htokens⟩
    exact (Session.ofOptions_of_ok hreach htokens).1
  · intro format source tokens hreach htokens
    obtain ⟨-, hstdout⟩ := Session.ofOptions_of_ok hreach htokens
    exact ⟨hstdout, hstdout.trans (Listing.output_of_tokenize htokens format)⟩
  · intro format source e hreach herror
    obtain ⟨hcode, hstdout, hstderr⟩ := Session.ofOptions_of_error hreach herror
    exact ⟨hcode, hstdout.trans (Session.output_of_error herror format), hstderr⟩
  · intro format source world' arguments' options' hreach h' hreach'
    rw [Session.ofArguments_of_run h' world']
    exact Session.ofOptions_congr hreach hreach'

/-- Two runs on the same stream of input, the one with a dash and a talkative log. -/
theorem run_outcome_stdin :
    let world : World := ⟨fun _ => .error .notFound, (Text.utf8 ['x']).toByteArray⟩
    let talkative := [['-'], "--log-level".toList, "trace".toList]
    let quiet := ["--log-format=json".toList]
    (Session.ofArguments world talkative).code = 0 ∧
      (Session.ofArguments world talkative).stdout = Text.utf8 "var   x\n".toList ∧
      (Session.ofArguments world quiet).code = (Session.ofArguments world talkative).code ∧
      (Session.ofArguments world quiet).stdout = (Session.ofArguments world talkative).stdout := by
  intro world talkative quiet
  have htalkative : CommandLine.parse talkative =
      .ok (.run ⟨some ['-'], none, none, some "trace".toList, none⟩) := by
    decide +kernel
  have hquiet : CommandLine.parse quiet = .ok (.run ⟨none, none, none, none, some .json⟩) := by
    decide +kernel
  have htokens : tokenize ['x'] = .ok [.identifier ['x']] := by
    decide +kernel
  have hreach : Session.Reaches world ⟨some ['-'], none, none, some "trace".toList, none⟩ .text
      ['x'] :=
    ⟨⟨Config.default, rfl, rfl⟩, by rintro w ⟨⟩; decide, .dash .dash rfl⟩
  have hreach' : Session.Reaches world ⟨none, none, none, none, some .json⟩ .text ['x'] :=
    ⟨⟨Config.default, rfl, rfl⟩, nofun, .stdin rfl⟩
  obtain ⟨hzero, houtput, -, -, hsame⟩ := run_outcome world htalkative
  refine ⟨hzero.mpr ⟨_, _, _, hreach, htokens⟩, (houtput _ _ _ hreach htokens).2.trans rfl, ?_⟩
  exact hsame _ _ _ _ _ hreach hquiet hreach'

end TokenStream
