import WebP.Container.File

/-!
# Parsers

A parser reads one file after another and remembers how the last one went. After a fault that a
longer input cannot mend it refuses every input until it is cleared.

## Main definitions

* `WebP.Parser`, with `Parser.parse`, `Parser.clear` and `Parser.isClear`.
* `WebP.parse`: reading a single file.
-/

namespace WebP

/-- How far a parser has come. -/
inductive Parser.State where
  /-- The header of a file comes next. -/
  | expectsFile
  /-- The header of a file has been read, and its chunks come next. -/
  | expectsChunks
  | done
  | failed (cause : Cause)
deriving DecidableEq, Repr, Inhabited

/-- Reads files and remembers a fault. -/
structure Parser where
  config : Config := {}
  /-- How the last input went. -/
  status : Status := .ok
  state : Parser.State := .expectsFile
deriving DecidableEq, Repr, Inhabited

namespace Parser

/-- Whether there was no input since the parser was made or cleared. -/
def isClear (parser : Parser) : Bool := parser.state == .expectsFile && parser.status == .ok

/-- The parser as it was made. -/
def clear (parser : Parser) : Parser := { parser with state := .expectsFile, status := .ok }

/-- The cause for which every input is refused, if there is one. -/
def latched? (parser : Parser) : Option Cause :=
  match parser.state with
  | .failed cause => if parser.status.isRecoverable then none else some cause
  | _ => none

/-- Reads a file with the settings of the parser. The chunks are expected as soon as the header of
the file has been read. -/
def run (parser : Parser) (data : Bytes) : Parsed FileHeader × Parser :=
  (FileHeader.read parser.config data,
    if (chunkSpan data).result.isOk then { parser with state := .expectsChunks } else parser)

/-- Reads a file, without regard to what the parser remembers, and remembers how it went. -/
def parseUnlatched (parser : Parser) (data : Bytes) : Parsed FileHeader × Parser :=
  let (outcome, parser) := parser.clear.run data
  match outcome.result with
  | .ok _ => (outcome, { parser with state := .done })
  | .error fault =>
    ({ outcome with log := outcome.log ++ [.parseFailed fault] },
      { parser with status := fault.status, state := .failed fault.cause })

/-- Reads a file, unless a fault is remembered that has to be cleared first. -/
def parse (parser : Parser) (data : Bytes) : Parsed FileHeader × Parser :=
  match parser.latched? with
  | some cause => (.fail cause [.parserNotCleared], parser)
  | none => parser.parseUnlatched data

/-- Neither the settings nor the status change while a file is read. -/
@[simp] theorem config_run (parser : Parser) (data : Bytes) :
    (parser.run data).2.config = parser.config := by
  unfold run
  split <;> rfl

@[simp] theorem status_run (parser : Parser) (data : Bytes) :
    (parser.run data).2.status = parser.status := by
  unfold run
  split <;> rfl

/-- A parser that reads an input gives the result of reading the file. -/
@[simp] theorem result_parseUnlatched (parser : Parser) (data : Bytes) :
    (parser.parseUnlatched data).1.result = (FileHeader.read parser.config data).result := by
  unfold parseUnlatched
  dsimp only
  split <;> rfl

end Parser

/-- Reads a single file. -/
def parse (config : Config) (data : Bytes) : Parsed FileHeader :=
  ({ config : Parser }.parse data).1

end WebP
