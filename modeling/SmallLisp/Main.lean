import SmallLisp.Program

/-! # The executable

The program works on a file tree in memory.  Here it meets the system: arguments, environment,
streams and files.  Of the files the tree holds only what is asked for: an evaluation that fails
because a module was not found is tried again once the file is fetched, which does no harm
because an evaluation changes nothing outside its own state.
-/
namespace SmallLisp.Main

/-- The components of an absolute path of the system. -/
def locationOf (path : String) : Location :=
  (Path.ofString path).parts

/-- What the system has at a place. -/
def fetchNode (place : Location) : IO Node := do
  try
    return .file (← IO.FS.readBinFile (Path.ofLocation place).text).toList
  catch _ => return .directory

/-- Adds to a tree what the system has along a path from a place, link by link, up to the first
name that is missing. -/
def fetchFrom (files : FileTree) (place : Location) : List String → IO FileTree
  | [] => return files
  | name :: rest => do
    if name = ".." then fetchFrom files place.dropLast rest
    else
      let named := place ++ [name]
      try
        let real := locationOf (← IO.FS.realPath (Path.ofLocation named).text).toString
        let node ← fetchNode real
        let files := (files.makeDirectories real.dropLast).put real node
        let files := if real = named then files
          else files.put named (.link (Path.ofLocation real).text)
        fetchFrom files real rest
      catch _ => return files

/-- Adds to a tree what the system has along a path. -/
def fetch (files : FileTree) (here : Location) (path : Path) : IO FileTree :=
  let full := (Path.ofLocation here).join path
  fetchFrom files [] full.parts

/-- The path of the module that was missing, if that is what went wrong. -/
def missingPath? : LispError → Option Path
  | .moduleNotFound path => some path
  | .failedModule _ source => missingPath? source
  | _ => none

/-- The tree that an evaluation needs: while the evaluation misses a module that the system has,
the module is fetched and the evaluation tried again. -/
partial def discover {α : Type} (here : Location) (action : Setting → Action α) (store : Store)
    (files : FileTree) : IO FileTree := do
  match ((action (Setting.standard files (.ofLocation here))).run store).1 with
  | .error (.lisp e) =>
    match missingPath? e with
    | some path =>
      let more ← fetch files here path
      if more.entries.entries.length = files.entries.entries.length then return files
      else discover here action store more
    | none => return files
  | _ => return files

/-- Writes what was printed to the streams. -/
def flushPrinted (store : Store) : IO Store := do
  for p in store.printed.reverse do
    match p.channel with
    | .console | .output => IO.print p.text
    | .error => IO.eprint p.text
  (← IO.getStdout).flush
  return { store with printed := [] }

/-- Warns about something unless the level of logging is too high for warnings. -/
def warn (level : Int) (text? : Option String) : IO Unit :=
  match text? with
  | some text =>
    if level ≤ Settings.defaultLevel then IO.eprintln ("WARNING: " ++ text) else pure ()
  | none => pure ()

/-- Tells what broke the program off. -/
def breakOff (breakdown : Breakdown) : IO UInt32 := do
  IO.eprintln breakdown.message
  return 1

/-- Evaluates code and ends. -/
def run (here : Location) (source : Source) : IO UInt32 := do
  let start ←
    match source with
    | .file path => fetch FileTree.empty here path
    | .text _ => pure FileTree.empty
  let text := match source with
    | .text code? => (code?.map String.toList).getD []
    | .file path => (start.readText (.ofLocation here) path).toOption.getD []
  let evaluation (setting : Setting) : Action Value := do
    (← Interpreter.new setting false []).eval setting text
  let files ← discover here evaluation Store.initial start
  match Program.runSource? (Setting.standard files (.ofLocation here)) source with
  | none => breakOff .noCode
  | some action =>
    let (ending, store) := action.run Store.initial
    discard <| flushPrinted store
    match ending with
    | .ok code => return UInt32.ofNat code
    | .error fault => breakOff (.evaluation fault)

/-- Takes lines until the console ends; gives the lines. -/
partial def converse (here : Location) (input : IO.FS.Stream) (console : Console) (store : Store)
    (typed : List (List Char)) : IO (Except Fault (List (List Char))) := do
  let store ← flushPrinted ((console.writePrompt.run store).2)
  let line ← input.getLine
  let text :=
    if line.isEmpty then "EOF".toList
    else if line.toList.getLast? = some '\n' then line.toList.dropLast
    else line.toList
  let evaluation (setting : Setting) : Action Value :=
    console.interpreter.eval setting (console.source text)
  let files ← discover here evaluation store FileTree.empty
  let (result, after) := (console.feed (Setting.standard files (.ofLocation here)) text).run store
  let after ← flushPrinted after
  let typed := if Text.isAllBlank text ∨ line.isEmpty then typed else text :: typed
  match result with
  | .error fault => return .error fault
  | .ok (_, true) => return .ok typed.reverse
  | .ok (next, false) => converse here input next after typed

/-- Keeps a history in the file at a path of the system. -/
def writeHistory (path : Path) (entries : List (List Char)) : IO Unit := do
  IO.FS.createDirAll path.parent.text
  let bytes := (String.ofList (History.fileText entries)).toUTF8
  let kept := ((History.lastLines? bytes.toList).map List.toByteArray).getD bytes
  IO.FS.writeBinFile path.text kept

/-- Runs the console on the standard input. -/
def repl (here : Location) (environment : Environment) (level : Int) : IO UInt32 := do
  let input ← IO.getStdin
  let files ←
    match Settings.historyPath? environment with
    | some path => fetch FileTree.empty here path
    | none => pure FileTree.empty
  match Program.loadHistory ⟨files, .ofLocation here, environment⟩ with
  | .error breakdown => breakOff breakdown
  | .ok (path, loaded) =>
    warn level loaded.warning?
    let setting := Setting.standard FileTree.empty (.ofLocation here)
    let color ← (← IO.getStdout).isTty
    match (Interpreter.new setting false []).run Store.initial with
    | (.error fault, _) => breakOff (.evaluation fault)
    | (.ok interpreter, store) =>
      let console := Console.new interpreter color false
      match ← converse here input console ((Console.printLine Console.intro).run store).2 [] with
      | .error fault => breakOff (.evaluation fault)
      | .ok typed =>
        let entries := if ← input.isTty then loaded.result ++ typed else loaded.result
        try writeHistory path entries
        catch e =>
          warn level (some ("Could not write history to " ++ path.text ++ ": " ++ toString e))
        return 0

/-- The variables that the program looks at. -/
def readEnvironment : IO Environment := do
  let mut environment : Environment := Table.empty
  for name in ["RSP_LOG", "RSP_HISTORY_PATH", "XDG_DATA_HOME", "HOME"] do
    if let some value ← IO.getEnv name then
      environment := environment.insert name value
  return environment

end SmallLisp.Main

open SmallLisp

/-- The command line: evaluates code or starts the console. -/
def main (arguments : List String) : IO UInt32 := do
  let environment ← Main.readEnvironment
  let here := Main.locationOf (← IO.currentDir).toString
  match CommandLine.parse arguments with
  | .error farewell =>
    IO.print farewell.output
    IO.eprint farewell.error
    return UInt32.ofNat farewell.code
  | .ok invocation =>
    match Settings.effectiveLevel? environment invocation.level, invocation.command with
    | none, _ => Main.breakOff .noLevel
    | some _, .run source => Main.run here source
    | some level, .repl => Main.repl here environment level
