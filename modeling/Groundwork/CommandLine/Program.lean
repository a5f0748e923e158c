import Groundwork.CommandLine.Invocation
import Groundwork.Compile.Journal
import Groundwork.Config.Document
import Groundwork.Definition.Build
import Groundwork.Log.Filter
import Groundwork.Plugin.Fleet
import Groundwork.Run.Journal
import Groundwork.Run.Progress
import Groundwork.State.Bucket
import Groundwork.State.Local
import Groundwork.Terminal
import Groundwork.Yaml.Block

/-!
# The program

What the program does with a command line: it loads the configuration and the definition that it names,
compiles, plans, runs, and reports.  All that it needs from outside it asks for as a program; only the
variables of the process, and what plugins do, are given.

Main statement: a command line that cannot be read touches no file (`program_of_parse_error`).
-/

namespace Groundwork.CommandLine

/-- What the program is surrounded by. -/
structure Surroundings where
  /-- The variables of the process. -/
  processVariables : Table String
  containers : ContainerProgram
  network : Network

/-- A configuration and the directory it was found in. -/
structure Setup where
  config : Config
  directory : String
  deriving Repr, Inhabited

/-! ### Steps -/

/-- A step that cannot fail. -/
def step (p : TerminalProgram α) : TerminalTask α := ExceptT.lift p

/-- A step that only uses files. -/
def stepOnFiles (t : FileTask α) : TerminalTask α := ExceptT.mk (Terminal.ofFiles t.run)

/-- Writes a line of the log. -/
def note (level : Level) (text : String) : TerminalTask Unit := step (Program.note level text)

/-- Prints a report. -/
def emit (text : String) : TerminalTask Unit := step (Terminal.print text)

/-- Prints a line on the stream for faults and questions. -/
def remark (line : String) : TerminalTask Unit := step (Terminal.complain (line ++ "\n"))

/-- A result of the state of things. -/
def ofState (act : ExceptT StateError TerminalProgram α) : TerminalTask α := act.adapt Failure.state

/-- A result of a compilation. -/
def ofCompile (x : Except CompileError α) : TerminalTask α := ExceptT.mk (pure (x.mapError Failure.compile))

/-- Asks a question that is to be answered with yes. -/
def confirm (question : String) : TerminalTask Bool := do
  step (Terminal.complain (question ++ " [y/N]: "))
  let answer ← step Terminal.readLine
  return (Text.trimString answer).map Char.toLower = "y"

/-! ### Loading and compiling -/

/-- The configuration at a path, or else the one that is found from the working directory. -/
def loadSetup (s : Surroundings) (path : Option String) : TerminalTask Setup := do
  let path ← match path with
    | some path => pure path
    | none => stepOnFiles (Config.find ".")
  let directory := (File.parent? path).getD "."
  note .debug ("Loading configuration from: " ++ path)
  return ⟨← stepOnFiles (Config.loadWithVariables s.processVariables directory path), directory⟩

/-- Checks a configuration and the files that it names. -/
def checkSetup (s : Setup) : TerminalTask Findings := do
  match ← step (Terminal.ofFiles (s.config.check true)) with
  | .ok f => return f
  | .error e => throw (.config e)

/-- The definition of a configuration. -/
def loadDefinition (c : Config) : TerminalTask Definition := stepOnFiles (Definition.load c.datacenter.path)

/-- The app graph of a configuration, which is empty if none is named. -/
def loadAppGraph (c : Config) : TerminalTask AppGraph :=
  match c.environment.bind (·.graph) with
  | some path => stepOnFiles (AppGraph.load path)
  | none => pure Graph.empty

/-- The value of a setting: a document of JSON if it is one, else a text. -/
def settingValue (text : String) : Value := (Json.read text).getD (.str text)

/-- What a definition is compiled for: settings win over the variables of the configuration. -/
def compileOptions (c : Config) (settings : List (String × String)) : CompileOptions :=
  { datacenter := c.datacenter.name
    environment := c.environmentName
    values := settings.foldl (fun t p => t.put p.1 (settingValue p.2)) c.datacenter.values }

/-- The graph that a configuration with settings asks for. -/
def compileTarget (c : Config) (settings : List (String × String)) : TerminalTask Infrastructure := do
  let d ← loadDefinition c
  let app ← loadAppGraph c
  let options := compileOptions c settings
  step (Terminal.notes (Compile.journal d app options))
  ofCompile (d.compile app options)

/-! ### Stores and runs -/

/-- A bucket that cannot be reached refuses every call. -/
def refuseBucket {α : Type} (q : BucketCall α) : α :=
  match q with
  | .get _ => .error ⟨"Unreachable"⟩
  | .put _ _ => .error ⟨"Unreachable"⟩
  | .delete _ => .error ⟨"Unreachable"⟩
  | .head _ => .error ⟨"Unreachable"⟩

/-- A program that uses a bucket, where none can be reached. -/
def withoutBucket (p : BucketProgram α) : TerminalProgram α :=
  p.expand fun q =>
    match q with
    | .first q => Program.query (.first q)
    | .second q => .done (refuseBucket q)

/-- The store that a configuration names. -/
def storeOf (s : Setup) : Except Failure (Store TerminalProgram) :=
  let settings := s.config.state
  match settings.backend, settings.bucket with
  | .files, _ =>
      let base := settings.path.getD (File.join s.directory LocalStore.defaultDirectory)
      .ok ((LocalStore.store base).mapEffects Terminal.ofFiles)
  | .bucket, some bucket =>
      .ok ((BucketStore.store (BucketStore.place bucket settings.directory)).mapEffects withoutBucket)
  | .bucket, none => .error (.internal "S3 bucket not configured")

/-- A task that uses the store that a configuration names. -/
def withStore (s : Setup) (task : Store TerminalProgram → TerminalTask α) : TerminalTask α :=
  match storeOf s with
  | .error f => throw f
  | .ok store => do
      note .debug ("Using " ++ store.kind ++ " state backend")
      task store

/-- The containers of a configuration, none of which is running. -/
def fleet (c : Config) : Fleet := .idle c.plugins.imageStart c.plugins.mount

/-- The fleet in a run, and what the log says during each call. -/
abbrev Told := Fleet × Table (List LogLine)

/-- Calls return in the order in which they are made, with what the fleet answers. -/
def scheduler (s : Surroundings) (now : Instant) : Run.Scheduler Told := fun (fleet, told) calls =>
  let call := calls.headD default
  let exchange := fleet.apply s.containers s.network call.plugin call.request
  let outcome := match exchange.result with
    | .ok response => Outcome.returned response
    | .error e => .failed e
  (⟨0, now, outcome⟩, (exchange.fleet, told ++ [(call.id, fleet.journal call.plugin)]))

/-- The lines about the progress of a run: each phase that a node comes to. -/
def progressLines (r : Run) : List String :=
  let changes := (Progress.steps [] r.snapshots).flatten.filter (·.2 ≠ .pending)
  changes.map fun p =>
    let action := (r.graph.node? p.1).elim "" (·.action.name)
    s!"  {p.1}: {action} {p.2.name}\n"

/-- Runs a plan, tells the log about it, and shows its progress. -/
def carryOut (s : Surroundings) (c : Config) (concurrency : Option Nat) (g : Infrastructure) :
    TerminalProgram Run := do
  let now ← Program.clock
  let options : RunOptions := ⟨concurrency.getD c.concurrency, File.parent? c.datacenter.path⟩
  let (run, _, told) := Run.execute options (scheduler s now) now g (fleet c, [])
  Terminal.notes (run.journal options fun id => (told.lookup id).getD [])
  (progressLines run).forM Terminal.complain
  return run

/-- What reconciling needs. -/
def reconciler (s : Surroundings) (c : Config) (concurrency : Option Nat) (store : Store TerminalProgram) :
    Reconciler TerminalProgram :=
  { store, run := carryOut s c concurrency, clock := Program.clock, note := Program.note }

/-! ### Instructions -/

/-- Checks a configuration and compiles its definition. -/
def validate (s : Setup) (style : ReportStyle) (warnings : Bool) : TerminalTask Unit := do
  let findings ← checkSetup s
  let g ← compileTarget s.config []
  note .debug s!"Compiled {g.size} modules"
  emit (Report.findings style warnings findings)

/-- Shows variables with their values. -/
def values (s : Setup) (style : ReportStyle) (settings : List (String × String)) :
    TerminalTask Unit := do
  let d ← loadDefinition s.config
  let schema ← ofCompile (Variable.schema d.declarations)
  let known ← ofCompile (Variable.resolve schema (compileOptions s.config settings).values)
  emit (Report.values style schema known)

/-- Makes a plan and shows it: the plan and when it was made. -/
def showPlan (r : Reconciler TerminalProgram) (style : ReportStyle) (detailed : Bool)
    (make : TerminalTask KeyPlan) : TerminalTask (KeyPlan × Instant) := do
  let created ← step r.clock
  let p ← make
  emit (Report.plan style created detailed p)
  return (p, created)

/-- Shows what an application would do. -/
def plan (s : Surroundings) (c : Setup) (style : ReportStyle) (settings : List (String × String))
    (detailed : Bool) : TerminalTask Unit := do
  let _ ← checkSetup c
  let target ← compileTarget c.config settings
  withStore c fun store => do
    let r := reconciler s c.config none store
    let _ ← showPlan r style detailed (r.plan c.config.stateKey target)

/-- Shows a plan and runs it if it changes anything and is confirmed. -/
def runConfirmed (r : Reconciler TerminalProgram) (style : ReportStyle) (yes : Bool)
    (question refusal : String) (make : TerminalTask KeyPlan)
    (perform : KeyPlan → TerminalTask Reconciliation) : TerminalTask Unit := do
  let (p, created) ← showPlan r style false make
  if !p.summary.hasChanges then return
  if !yes then
    if !(← confirm question) then
      remark refusal
      return
  emit (Report.outcome style created (← perform p))

/-- Applies what a configuration asks for. -/
def apply (s : Surroundings) (c : Setup) (style : ReportStyle) (settings : List (String × String))
    (yes : Bool) (concurrency : Option Nat) : TerminalTask Unit := do
  let _ ← checkSetup c
  let target ← compileTarget c.config settings
  withStore c fun store =>
    let r := reconciler s c.config concurrency store
    runConfirmed r style yes "Do you want to apply this plan?" "Apply cancelled."
      (r.plan c.config.stateKey target) r.apply

/-- Deletes all that was applied. -/
def destroy (s : Surroundings) (c : Setup) (style : ReportStyle) (yes : Bool) (concurrency : Option Nat) :
    TerminalTask Unit :=
  let key := c.config.stateKey
  withStore c fun store =>
    let r := reconciler s c.config concurrency store
    runConfirmed r style yes ("Destroy every module in " ++ key.render ++ "?") "Destroy cancelled."
      (r.planDestroy key) fun _ => r.destroy key

/-- The text of a definition as it is written to a path. -/
def definitionText (path : String) (d : Definition) : String :=
  if File.extension? path = some "json" then Json.pretty d.toValue else Yaml.block d.toValue

/-- Has a directory made into an image, with the fleet as it is then. -/
def buildImage (s : Surroundings) (plugin : PluginKind) (directory : String) :
    StateT Fleet TerminalProgram (Except PluginError String) := do
  let fleet ← get
  let first := LogLine.mk .info ("Building " ++ plugin.name ++ " module from " ++ directory)
  StateT.lift (Terminal.notes (first :: fleet.journal plugin))
  let exchange := fleet.build s.containers s.network plugin directory
  set exchange.fleet
  return exchange.result

/-- Builds the modules that name directories, and writes or prints the definition with their images. -/
def build (s : Surroundings) (c : Setup) (style : ReportStyle) (out : Option String) : TerminalTask Unit := do
  let d ← loadDefinition c.config
  let base := (File.parent? c.config.datacenter.path).getD "."
  let isDirectory (path : String) : StateT Fleet TerminalProgram Bool :=
    StateT.lift (Terminal.ask (.isDirectory path))
  let ((built, d), _) ← step ((d.buildModules isDirectory base (buildImage s)).run (fleet c.config))
  match built with
  | .error e => throw (.plugin e)
  | .ok n =>
      note .info s!"Built {n} modules"
      match out with
      | none => emit (definitionText "datacenter.yml" d)
      | some path =>
          match ← step (Terminal.ask (.writeText path (definitionText path d))) with
          | .error e => throw (.system e.message)
          | .ok () => emit (Report.message style s!"Built {n} modules, wrote {path}")

/-- Shows the record of a key and its lock. -/
def showState (store : Store TerminalProgram) (key : StateKey) (style : ReportStyle) :
    TerminalTask Unit := do
  match ← ofState (store.load key) with
  | none => emit (Report.message style ("No state found for " ++ key.render ++ "."))
  | some r => do
      let lock ← ofState (store.lock? key)
      emit (Report.record style (← step Program.clock) r lock)

/-- Removes the lock of a key: by its id, or whoever holds it. -/
def unlockState (store : Store TerminalProgram) (key : StateKey) (style : ReportStyle)
    (lock : Option String) (force : Bool) : TerminalTask Unit := do
  match force, lock with
  | true, _ => do
      ofState (store.forceUnlock key)
      emit (Report.message style "State forcefully unlocked.")
  | false, some id => do
      ofState (store.release key id)
      emit (Report.message style "State unlocked.")
  | false, none => throw (.internal "Provide --lock-id or use --force")

/-- Removes the record of a key. -/
def deleteState (store : Store TerminalProgram) (key : StateKey) (style : ReportStyle) (yes : Bool) :
    TerminalTask Unit := do
  let stored ← ofState (store.load key)
  let live := stored.elim 0 fun r => r.graph.nodes.countP (·.isComplete)
  if live ≠ 0 then
    remark s!"{key.render} still tracks {live} applied modules; they will not be destroyed."
  if !yes then
    if !(← confirm ("Delete stored state for " ++ key.render ++ "?")) then
      remark "Delete cancelled."
      return
  ofState (store.delete key)
  emit (Report.message style ("Deleted state for " ++ key.render ++ "."))

/-- Does what an invocation asks for. -/
def perform (s : Surroundings) (i : Invocation) : TerminalTask Unit := do
  let c ← loadSetup s i.config
  match i.instruction with
  | .validate warnings => validate c i.style warnings
  | .values settings => values c i.style settings
  | .graph settings => emit (Report.graph i.style (← compileTarget c.config settings))
  | .plan settings detailed => plan s c i.style settings detailed
  | .apply settings yes concurrency => apply s c i.style settings yes concurrency
  | .destroy yes concurrency => destroy s c i.style yes concurrency
  | .build out => build s c i.style out
  | .showState => withStore c fun store => showState store c.config.stateKey i.style
  | .unlockState lock force =>
      withStore c fun store => unlockState store c.config.stateKey i.style lock force
  | .deleteState yes => withStore c fun store => deleteState store c.config.stateKey i.style yes

/-! ### The whole program -/

/-- The variable of the process that names a filter of the log. -/
def logVariable : String := "RUST_LOG"

/-- The name that filters of the log know the program by. -/
def programName : String := Verb.whole.word

/-- Which lines of the log are shown: what the variable says, or else what the command line says. -/
def logFilter (s : Surroundings) (i : Invocation) : LogFilter :=
  ((s.processVariables.lookup logVariable).bind LogFilter.ofText?).getD
    (.upTo (if i.verbose then .debug else .info))

/-- Shows a line of the log on the stream for faults. -/
def showLine (f : LogFilter) (style : ReportStyle) (line : LogLine) : TerminalProgram Unit :=
  if f.shows programName.toList line then do
    let now ← Program.clock
    let text := match style with
      | .text => line.render now
      | .json => line.renderJson now
    Terminal.complain (text ++ "\n")
  else .done ()

/-- An ambient question, where lines of the log are shown. -/
def showLog {α : Type} (f : LogFilter) (style : ReportStyle) (q : Ambient α) : TerminalProgram α :=
  match q with
  | .note line => showLine f style line
  | .clock => Program.clock
  | .freshId => Program.freshId
  | .holder => Program.holder

/-- A program that shows its log. -/
def logged (f : LogFilter) (style : ReportStyle) (p : TerminalProgram α) : TerminalProgram α :=
  p.expand fun q =>
    match q with
    | .first q => showLog f style q
    | .second q => Program.call q

/-- Does what an invocation asks for, and words a failure: the number that tells how it ended. -/
def conclude (s : Surroundings) (i : Invocation) : TerminalProgram Nat := do
  match ← (perform s i).run with
  | .ok () => return 0
  | .error f => do
      Terminal.complain ("Error: " ++ f.message ++ "\n")
      return 1

/-- Answers a command line that asks for nothing that can be done. -/
def answerUsage (e : UsageError) : TerminalProgram Nat := do
  if e.isInquiry then
    Terminal.print e.message
    return 0
  else
    Terminal.complain e.message
    return 2

/-- The program, given the words of its command line: the number that tells how it ended. -/
def program (s : Surroundings) (words : List String) : TerminalProgram Nat :=
  match parse (s.processVariables.lookup configVariable) words with
  | .error e => answerUsage e
  | .ok i => logged (logFilter s i) i.logStyle (conclude s i)

theorem program_of_parse_error {s : Surroundings} {words : List String} {e : UsageError}
    (h : parse (s.processVariables.lookup configVariable) words = .error e) :
    program s words = answerUsage e := by
  simp [program, h]

end Groundwork.CommandLine
