import Sylar.Foundation.Ordered

/-! # Levels, events and formatters of the log

A `LogFormatter` is built from a pattern: text, and directives that begin with a
percent sign and may carry an argument in braces.
-/

namespace Sylar.Logging

open Foundation

/-! ## Levels -/

inductive Level
  | UNKNOW | DEBUG | INFO | WARN | ERROR | FATAL | delFlag
deriving DecidableEq, Repr

namespace Level

def value : Level → Nat
  | .UNKNOW => 0
  | .DEBUG => 1
  | .INFO => 2
  | .WARN => 3
  | .ERROR => 4
  | .FATAL => 5
  | .delFlag => 100

theorem value_injective {left right : Level} (same : left.value = right.value) :
    left = right := by
  cases left <;> cases right <;> first | rfl | cases same

instance : LE Level := ⟨fun left right => left.value ≤ right.value⟩

instance : LT Level := ⟨fun left right => left.value < right.value⟩

instance (left right : Level) : Decidable (left ≤ right) :=
  inferInstanceAs (Decidable (left.value ≤ right.value))

instance (left right : Level) : Decidable (left < right) :=
  inferInstanceAs (Decidable (left.value < right.value))

def toText : Level → Text
  | .DEBUG => "DEBUG".toList
  | .INFO => "INFO".toList
  | .WARN => "WARN".toList
  | .ERROR => "ERROR".toList
  | .FATAL => "FATAL".toList
  | .UNKNOW | .delFlag => "UNKNOW".toList

def fromString (val : Text) : Level :=
  if val = "DEBUG".toList then .DEBUG
  else if val = "INFO".toList then .INFO
  else if val = "WARN".toList then .WARN
  else if val = "ERROR".toList then .ERROR
  else if val = "FATAL".toList then .FATAL
  else .UNKNOW

end Level

/-! ## Events -/

abbrev LoggerId := Nat

structure LogEvent where
  file : Text
  elapse : Int
  line : Int
  threadId : Int
  fiberId : Nat
  time : Int
  content : Text
  level : Level
  threadName : Text
  logger : Option LoggerId := none

/-! ## Items -/

inductive FormatItem
  | message
  | level
  | elapse
  | loggerName
  | threadId
  | fiberId
  | dateTime (dateFormat : Text)
  | fileName
  | line
  | newLine
  | string (text : Text)
  | thread
deriving DecidableEq, Repr

namespace FormatItem

def newDateTime (dateFormat : Text) : FormatItem :=
  if dateFormat = [] then .dateTime "%Y:%m:%d %H:%M:%S".toList else .dateTime dateFormat

def ofDirective (name fmt : Text) : Option FormatItem :=
  if name = "m".toList then some .message
  else if name = "p".toList then some .level
  else if name = "r".toList then some .elapse
  else if name = "c".toList then some .loggerName
  else if name = "t".toList then some .threadId
  else if name = "n".toList then some .newLine
  else if name = "d".toList then some (newDateTime fmt)
  else if name = "f".toList then some .fileName
  else if name = "l".toList then some .line
  else if name = "F".toList then some .fiberId
  else if name = "N".toList then some .thread
  else none

/-- What an item writes. `strftime` gives what the buffer of 64 characters holds for
a date format and a time. -/
def format (strftime : Text → Int → Text) (loggerName : Text) (level : Level)
    (event : LogEvent) : FormatItem → Text
  | .message => event.content
  | .level => level.toText
  | .elapse => (toString event.elapse).toList
  | .loggerName => loggerName
  | .threadId => (toString event.threadId).toList
  | .fiberId => (toString event.fiberId).toList
  | .dateTime dateFormat => strftime dateFormat event.time
  | .fileName => event.file
  | .line => (toString event.line).toList
  | .newLine => ['\n']
  | .string text => text
  | .thread => event.threadName

end FormatItem

/-! ## Reading a pattern -/

/-- What the scan of one directive comes to: it ends before a character that cannot
belong to it, or at a closing brace, or within its braces. -/
inductive Directive
  | plain (name : Text)
  | withFormat (name fmt : Text)
  | unterminated
deriving DecidableEq, Repr

namespace Directive

def continues (char : Char) : Bool :=
  char.isAlpha || char == '{' || char == '}'

def scanFormat (name : Text) : Text → Text → Directive
  | _, [] => .unterminated
  | fmt, char :: rest =>
      if !continues char then .unterminated
      else if char = '}' then .withFormat name fmt
      else scanFormat name (fmt ++ [char]) rest

def scan : Text → Text → Directive
  | name, [] => .plain name
  | name, char :: rest =>
      if !continues char then .plain name
      else if char = '{' then scanFormat name [] rest
      else scan (name ++ [char]) rest

end Directive

/-- The entries of the vector that `init` collects. Those of directives are treated
alike whether they carry an argument or not. -/
inductive Segment
  | text (content : Text)
  | directive (name fmt : Text)
  | patternError
deriving DecidableEq, Repr

namespace Segment

def flush (nstr : Text) : List Segment :=
  if nstr = [] then [] else [.text nstr]

/-- The loop over the pattern. `skip` characters of a directive that was scanned are
passed over; its closing brace is not among them. -/
def split : Text → Nat → Text → List Segment
  | [], _, nstr => flush nstr
  | _ :: rest, skip + 1, nstr => split rest skip nstr
  | char :: rest, 0, nstr =>
      if char ≠ '%' then split rest 0 (nstr ++ [char])
      -- The second percent sign is looked at again.
      else if rest.head? = some '%' then split rest 0 (nstr ++ ['%'])
      else
        match Directive.scan [] rest with
        | .plain name => flush nstr ++ .directive name [] :: split rest name.length []
        | .withFormat name fmt =>
            flush nstr ++
              .directive name fmt :: split rest (name.length + 1 + fmt.length) []
        | .unterminated => .patternError :: split rest 0 nstr

def item : Segment → FormatItem
  | .text content => .string content
  | .directive name fmt => (FormatItem.ofDirective name fmt).getD (.string name)
  | .patternError => .string "pattern error".toList

def isError : Segment → Bool
  | .text _ => false
  | .directive name fmt => (FormatItem.ofDirective name fmt).isNone
  | .patternError => true

end Segment

/-! ## Formatters -/

structure LogFormatter where
  pattern : Text
  items : List FormatItem
  ifError : Bool
deriving DecidableEq, Repr

namespace LogFormatter

def new (pattern : Text) : LogFormatter where
  pattern := pattern
  items := (Segment.split pattern 0 []).map Segment.item
  ifError := (Segment.split pattern 0 []).any Segment.isError

def format (strftime : Text → Int → Text) (formatter : LogFormatter) (loggerName : Text)
    (level : Level) (event : LogEvent) : Text :=
  formatter.items.flatMap (FormatItem.format strftime loggerName level event)

def default : LogFormatter :=
  new "%d [%N]:%t %F [%p]  [%c] <%f :%l> %m %n".toList

example : default.ifError = false := by decide

/-- A directive with an argument leaves its closing brace behind. -/
example : (new "%d{H}x".toList).items = [.dateTime ['H'], .string ['}', 'x']] := by decide +kernel

end LogFormatter

end Sylar.Logging
