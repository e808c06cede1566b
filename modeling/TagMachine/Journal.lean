import TagMachine.Text.Printable
import TagMachine.Text.Quoted
import TagMachine.Text.Space

/-!
Log entries: a level, a message and fields. An entry takes a line; a field whose value has more than
one line goes on lines of its own.
-/

namespace TagMachine

/-- How important an entry is. -/
inductive Level where
  | debug
  | info
  | warn
  | fatal
  deriving DecidableEq, Repr

namespace Level

/-- The tag of a level. -/
def tag : Level → Bytes
  | debug => "DEBU"
  | info => "INFO"
  | warn => "WARN"
  | fatal => "FATA"

/-- Warnings and what is worse are shown always, the rest only when asked for. -/
def isShown (verbose : Bool) : Level → Bool
  | debug | info => verbose
  | warn | fatal => true

end Level

/-- A log entry. -/
structure LogEntry where
  level : Level
  message : Bytes
  fields : List (Bytes × Bytes)
  deriving DecidableEq, Repr

namespace LogEntry

/-- The value has to stand in quotes. -/
def needsQuotes (value : Bytes) : Bool :=
  Utf8.any
    (fun c => c == '"' || c == '=' || c == Utf8.replacement || isSpace c || !isPrintable c) value

/-- A character of a value that is escaped. -/
def escapeChar (quoted : Bool) (c : Char) : Bytes :=
  let n := c.toNat
  if quoted && c == '"' then [92, 34]
  else if isPrintable c then Utf8.encode c
  else match Quoted.letterEscape? n with
    | some letter => [92, letter]
    | none =>
      if n < 0x20 then [92, 120] ++ Bytes.hex 2 n
      else if n < 0x10000 then [92, 117] ++ Bytes.hex 4 n
      else [92, 85] ++ Bytes.hex 8 n

/-- A value with its unprintable characters escaped; a backslash stays as it is. -/
def escape (quoted : Bool) (value : Bytes) : Bytes :=
  if Utf8.any (fun c => c == '"' || !isPrintable c) value then
    (Utf8.decode value).flatMap (escapeChar quoted)
  else value

/-- Lines of a value behind a bar. The last one is left out if it is empty, and ends in a newline if
more follows. -/
def barred (moreFollows : Bool) : List Bytes → Bytes
  | [] => []
  | [last] =>
    if last.isEmpty then []
    else Bytes.cat ["  │ ", escape false last, if moreFollows then [10] else []]
  | line :: rest => Bytes.cat ["  │ ", escape false line, [10]] ++ barred moreFollows rest

/-- A field behind what stands in front of it. -/
def fieldText (moreFollows : Bool) (key value : Bytes) : Bytes :=
  if value.contains 10 then
    Bytes.cat ["\n  ", key, "=\n"] ++ barred moreFollows (Bytes.splitOn 10 value)
  else if value.isEmpty then Bytes.cat [" ", key, "=\"\""]
  else if needsQuotes value then Bytes.cat [" ", key, "=\"", escape true value, "\""]
  else Bytes.cat [" ", key, "=", value]

/-- Fields one after another. -/
def fieldTexts : List (Bytes × Bytes) → Bytes
  | [] => []
  | (k, v) :: rest => fieldText (!rest.isEmpty) k v ++ fieldTexts rest

/-- An entry in text. -/
def text (e : LogEntry) : Bytes :=
  Bytes.cat [e.level.tag, " TAGVM: ", e.message, fieldTexts e.fields, [10]]

end LogEntry

end TagMachine
