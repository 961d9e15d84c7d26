import BranchSync.Text.Parts

/-!
# Log filters

A log filter is a list of directives separated by commas. A directive is a level, or names a
target, a span in brackets, or both, and may set the level for them after an equals sign.
Empty directives do not count.
-/

namespace BranchSync.LogFilter

/-- Whether a text is a level: a name in any case of letters, or a number from zero to five. -/
def isLevel (text : List Char) : Bool :=
  ["error", "warn", "info", "debug", "trace", "off", "0", "1", "2", "3", "4", "5"].any
    fun name => name.toList == text.map Char.toLower

/-- A character of the name of a target. -/
def isTargetChar (c : Char) : Bool :=
  c.isAlphanum || c == '_' || c == '-' || c == ':' || 0x80 ≤ c.toNat

/-- Whether what follows the name and the span of a directive is nothing, or a level. -/
def isLevelPart : List Char → Bool
  | [] => true
  | '=' :: level => level.isEmpty || isLevel level
  | _ => false

/-- Whether what follows the name of a directive is in order: a span may come before the
level. -/
def isSpanPart : List Char → Bool
  | '[' :: rest =>
    match rest.dropWhile (· != ']') with
    | ']' :: rest => isLevelPart rest
    | _ => false
  | rest => isLevelPart rest

/-- Whether a text is a directive. -/
def isDirective (text : List Char) : Bool :=
  isSpanPart (text.dropWhile isTargetChar) && text.head? != some '='

/-- Whether a text is a log filter. -/
def isValid (filter : String) : Bool :=
  (Text.partsAt ',' filter.toList).all fun text => text.isEmpty || isDirective text

end BranchSync.LogFilter
