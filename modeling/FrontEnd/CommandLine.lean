import FrontEnd.Compilation

/-!
# The command line

* `Options` — what the arguments ask for; `Options.parse?` reads them.
* `FileContent` — what reading a file gives.
* `Report` — the exit status and what is printed.
* `CommandLine.report` — compile a source and report; `CommandLine.run` also reads the arguments and
  the file.
-/

namespace FrontEnd

namespace CommandLine

/-- What the arguments ask for. -/
structure Options where
  /-- the source file -/
  path : Option String
  /-- print the tokens before parsing -/
  tokens : Bool
  /-- print the unresolved names after lowering -/
  unresolved : Bool
deriving DecidableEq, Repr

namespace Options

/-- The source file that is read if none is named. -/
def defaultPath : String := "test.txt"

/-- Take a path.  Only one may be given, and it may not be empty. -/
def withPath? (o : Options) (path : String) : Option Options :=
  if o.path.isSome || path.isEmpty then none else some { o with path := some path }

/-- Read the arguments: two flags, each at most once, and at most one path.  Behind `--` everything
is a path; a lone `-` is a path too. -/
def parseFrom (o : Options) : List String → Option Options
  | [] => some o
  | "--tokens" :: rest => if o.tokens then none else parseFrom { o with tokens := true } rest
  | "--unresolved" :: rest =>
    if o.unresolved then none else parseFrom { o with unresolved := true } rest
  | "--" :: rest => rest.foldlM withPath? o
  | arg :: rest =>
    if arg.startsWith "-" && arg != "-" then none
    else (o.withPath? arg).bind fun o => parseFrom o rest

def parse? (args : List String) : Option Options := parseFrom ⟨none, false, false⟩ args

end Options

/-- What reading a file gives. -/
inductive FileContent
  | missing
  | bytes (content : ByteArray)

/-- How a run ends: its exit status and what it prints. -/
structure Report where
  exit : Nat
  stdout : String
  stderr : String
deriving DecidableEq, Repr

def Report.unreadable (path reason : String) : Report :=
  ⟨1, "", "Error: Error opening file: " ++ path ++ "\n\nCaused by:\n    " ++ reason ++ "\n"⟩

def Report.usage : Report := ⟨2, "", "usage: [PATH] [--tokens] [--unresolved]\n"⟩

/-- The tokens of a source, one a line, the end of the file included. -/
def tokenListing (source : String) : String :=
  String.join ((allTokens source).map fun t => t.display ++ "\n")

/-- Compile a source and report. -/
def report (o : Options) (source : String) : Report :=
  let listing := if o.tokens then tokenListing source else ""
  match compile source (Sink.empty none) with
  | ⟨.ok u, _, _⟩ => ⟨0, listing ++ (if o.unresolved then u.names.print else ""), ""⟩
  | ⟨.error e, _, _⟩ => ⟨1, listing, e.message ++ "\n"⟩

/-- Run with the given arguments, reading files with the given function. -/
def run {m : Type → Type} [Monad m] (args : List String) (readFile : String → m FileContent) :
    m Report :=
  match Options.parse? args with
  | none => pure Report.usage
  | some o => do
    let path := o.path.getD Options.defaultPath
    match ← readFile path with
    | .missing => pure (Report.unreadable path "No such file or directory (os error 2)")
    | .bytes content =>
      match String.fromUTF8? content with
      | some source => pure (report o source)
      | none => pure (Report.unreadable path "stream did not contain valid UTF-8")

end CommandLine

end FrontEnd
