import CommandShell.Shell.Chain
import CommandShell.Shell.Dispatch

/-!
# Running lines

A line is cut into its parts, which form a chain.  A segment leads to a processor, or to another
segment that it stands for as an alias; a segment that fails outside its handler is reported, and
the line goes on.  `>>` appends a payload to a file.  Handlers may run further lines.

## Main definitions

* `maxExpansions`: how often one segment is expanded.
* `Run.runSegment`: a segment with the process record around it.
* `Run.appendPayload`: what `>>` does.
* `Run.runLineWith`: a line, where the lines that it leads to are run in a given way.
* `Run.runLine`: a line.
* `Session.appendedPaths`: the files that a line may append to.
-/

namespace CommandShell

/-- How often one segment is expanded. -/
def maxExpansions : Nat := 10

/-- The command that a segment gives to a processor. -/
def Invocation.ofSegment (segment : String) (parameters : List Parameter) (data : Value) :
    Invocation :=
  let s := readSegment segment
  { command := s.name
    raw := segment
    chain := ((splitWords s.name).drop 1).map lowerCase
    args := bindFlags parameters s.flags
    data := data }

/-- The processor that a segment leads to. -/
def Session.resolve? (s : Session) (segment : String) : Option ShellProcessor :=
  match splitWords (readSegment segment).name with
  | [] => none
  | name :: chain => Processor.find? name (chain.map lowerCase) s.commands

namespace Run

/-- Reports that no command answers to a name. -/
def commandNotFound (name : String) : Run Unit := do
  say .error ("Command not found: " ++ coloured "cyan" name)
  print ""
  say .info ("Type " ++ coloured "cyan" "help" ++ " for a list of available commands")
  exitSilently (-1)

/-- Reports that aliases lead to one another too often. -/
def expansionTooDeep (word : String) : Run Unit := do
  say .error ("Alias expansion too deep: " ++ coloured "cyan" word)
  exitSilently (-1)

variable (rerun : String → Run Unit)

/-- A segment with the process record around it, where `expand` runs what a word stands for as an
alias. -/
def runSegmentWith (data : Value) (expand : String → String → Run Unit) (segment : String) :
    Run Unit :=
  ensuring (do
    process (·.start)
    let s ← get
    match s.resolve? segment with
    | some p => reach rerun p (.ofSegment segment p.decl.parameters data)
    | none =>
      let name := (readSegment segment).name
      let word := (splitWords name).headD ""
      -- Commands go before aliases of the same name.
      match s.expansion? word segment with
      | some expanded => expand word expanded
      | none => commandNotFound name)
    fun s => { s with process := s.process.finish }

/-- A segment with the process record around it; it may be expanded so many times. -/
def runSegmentWithin (data : Value) : Nat → String → Run Unit
  | 0, segment => runSegmentWith rerun data (fun word _ => expansionTooDeep word) segment
  | expansions + 1, segment =>
    runSegmentWith rerun data (fun _ expanded => runSegmentWithin data expansions expanded) segment

/-- A segment with the process record around it. -/
def runSegment (segment : String) (data : Value) : Run Unit :=
  runSegmentWithin rerun data maxExpansions segment

/-- A segment of a line: what fails outside its handler is reported, and leaves the payload from
before. -/
def runReported (segment : String) (data : Value) : Run SegmentOutcome :=
  recover
    (do
      runSegment rerun segment data
      let p := (← get).process
      return ⟨p.succeeded, some p.payload⟩)
    fun f => do
      log "executor" .error ("Segment failed: " ++ segment)
      say .error ("Command " ++ escapeMarkup segment ++ " failed: " ++ escapeMarkup f.message)
      return ⟨false, none⟩

/-- Appends a payload to the file at a path, whose fault is that of the operating system. -/
def appendToFile (root path : String) (payload : Value) : Run Unit := do
  let p := AccessPath.ofPath (← resolvePath root path)
  let text := payloadText payload
  if ← access (FileAccess.ask (·.exists? p)) then access (FileAccess.write p text true)
  else access (FileAccess.create p text)

/-- What `>>` does: without files it fails, and a payload that is absent is not written. -/
def appendPayload (path : String) (payload : Value) : Run Bool := do
  match (← get).services.get Service.fileSystemToken with
  | .ok (.fileSystem root) =>
    if payload.isNull then return true
    else
      recover (do appendToFile root path payload; return true) fun f =>
        -- Faults that are not of the operating system unwind the line.
        if f.isSystem then do
          say .error (">> failed: " ++ escapeMarkup f.message)
          return false
        else fail f
  | _ => do
    say .error ">> redirect requires the file system plugin"
    return false

/-- How the chain of a line runs, where `rerun` runs the lines that it leads to. -/
def chainRunner : ChainRunner Run where
  segment := runReported rerun
  append := appendPayload
  missingPath := say .error "Missing file path after >>"

/-- A line, where `rerun` runs the lines that it leads to; the result tells whether it succeeded. -/
def runLineWith (line : String) : Run Bool := do
  return (← runChain (chainRunner rerun) {} (splitLine line)).succeeded

end Run

/-- How deep lines may lead to one another. -/
def maxLineNesting : Nat := 500

namespace Run

/-- A line, where lines may lead to one another so many levels deep. -/
def runLineWithin : Nat → String → Run Bool
  | 0, _ => throw .unfinished
  | depth + 1, line => runLineWith (fun inner => discard (runLineWithin depth inner)) line

/-- A line; the result tells whether it succeeded. -/
def runLine (line : String) : Run Bool :=
  runLineWithin maxLineNesting line

/-- A line that a script or a caller runs without looking at the result. -/
def rerun (line : String) : Run Unit :=
  discard (runLine line)

end Run

/-- The files that a line may append to. -/
def Session.appendedPaths (s : Session) (line : String) : List Path :=
  match s.services.get Service.fileSystemToken with
  | .ok (.fileSystem root) =>
    (appendTargets (splitLine line)).filterMap fun path =>
      (s.locations.expand (trimBlanks path) (some root)).toOption
  | _ => []

end CommandShell
