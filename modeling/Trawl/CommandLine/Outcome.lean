import Trawl.Json.Printer

/-!
# What a command comes to

The records that a command prints and the messages it leaves with. A message is kept in two parts,
because its detail may come from the system and its words are then not this library's.
-/

namespace Trawl.CommandLine

/-- What a message is about. -/
inductive MessageKind where
  | error
  | hint
  | success
  deriving DecidableEq, Repr

/-- What stands at the front of a message. -/
def MessageKind.lead : MessageKind → String
  | .error => "error: "
  | .hint => "hint: "
  | .success => "OK: "

/-- A message. -/
structure Message where
  kind : MessageKind
  text : String
  /-- What the system or another authority says about it. -/
  detail : String := ""
  deriving DecidableEq, Repr

/-- A message without its detail. -/
def Message.outline (m : Message) : String :=
  m.kind.lead ++ m.text

/-- A whole message. -/
def Message.toText (m : Message) : String :=
  m.outline ++ m.detail

/-- Why a command fails, with a hint where there is one to give. -/
structure Failure where
  message : Message
  hint : Option Message
  deriving DecidableEq, Repr

/-- A failure without details. -/
def Failure.of (text : String) (hint : String) : Failure :=
  ⟨⟨.error, text, ""⟩, some ⟨.hint, hint, ""⟩⟩

/-- The messages of a failure. -/
def Failure.messages (f : Failure) : List Message :=
  f.message :: f.hint.toList

/-- What a command prints. -/
structure Outcome where
  packets : List String
  chunks : List String
  messages : List Message
  succeeded : Bool
  deriving DecidableEq, Repr

/-- The outcome of a command that fails before it prints anything. -/
def Outcome.ofFailure (f : Failure) : Outcome :=
  ⟨[], [], f.messages, false⟩

/-- The code that a process ends with. -/
def Outcome.exitCode (o : Outcome) : Nat :=
  if o.succeeded then 0 else 2

end Trawl.CommandLine
