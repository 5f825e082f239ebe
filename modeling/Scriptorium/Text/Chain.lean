/-!
# Messages with their causes

A failure is told by its message and the messages of its causes, with colons
between them. In a chain a cause is left out when the text so far ends with it
already; a full chain tells every cause.
-/

namespace Scriptorium.Text

/-- The text so far and one more cause, unless the text ends with it. -/
def addCause (told cause : String) : String :=
  if cause.toList.isSuffixOf told.toList then told else told ++ ": " ++ cause

/-- A message and those of its causes that it does not end with. -/
def chain (message : String) (causes : List String) : String := causes.foldl addCause message

/-- A message and all its causes. -/
def fullChain (message : String) (causes : List String) : String :=
  ": ".intercalate (message :: causes)

end Scriptorium.Text
