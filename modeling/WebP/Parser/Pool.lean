import WebP.Parser

/-!
# Pools of parsers

A pool keeps released parsers for the next user. They are cleared when they are released, so that
nothing of one input is seen by the user of another.
-/

namespace WebP

/-- Parsers that wait to be used again. -/
structure ParserPool where
  config : Config := {}
  /-- The waiting parsers, the one released last in front. -/
  idle : List Parser := []
  /-- How many parsers may wait. -/
  maxIdle : Nat := 8
deriving Repr, Inhabited

namespace ParserPool

/-- Takes a waiting parser, or makes one. -/
def obtain (pool : ParserPool) : Parser × ParserPool :=
  match pool.idle with
  | parser :: idle => (parser, { pool with idle })
  | [] => ({ config := pool.config }, pool)

/-- Clears a parser and keeps it, unless enough are waiting. -/
def release (pool : ParserPool) (parser : Parser) : ParserPool :=
  if pool.idle.length < pool.maxIdle then
    { pool with idle := parser.clear :: pool.idle }
  else
    pool

end ParserPool

end WebP
