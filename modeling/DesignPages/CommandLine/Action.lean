import DesignPages.Link

/-!
# Actions

This module holds what a command does, as a tree.  Every operation on the surroundings stands with what
follows for each of its replies, and every branch ends in a result or in a failure.

A world says what can be read and what becomes of a place when it is changed.  A run goes through the
tree from the first operation on, and whatever it has printed and changed before a failure stays.
-/

namespace DesignPages
namespace CommandLine

/-- One change to the files. -/
inductive Step where
  | makeFolder (path : String)
  | writeFile (path content : String)
  deriving DecidableEq, Repr

/-- Why a command fails. -/
inductive Failure where
  | standardInput
  | unreadable (path : String)
  | configUnreadable (path : String)
  | configInvalid (path : String)
  | notCompiled (input : String)
  | exportInvalid (input : String)
  | notGenerated (input : String)
  | link (e : Link.Invalid)
  | notMade (path : String)
  | notWritten (path : String)
  deriving DecidableEq, Repr

/-- The message about a failure. -/
def Failure.message : Failure → String
  | standardInput => "Failed to read stdin"
  | unreadable path => "Failed to read " ++ path
  | configUnreadable path => "Failed to read config " ++ path
  | configInvalid path => "Invalid config " ++ path
  | notCompiled input => "Failed to compile " ++ input
  | exportInvalid input => "Failed to read design export " ++ input
  | notGenerated input => "Failed to generate from " ++ input
  | link e => e.message
  | notMade path => "Failed to create " ++ path
  | notWritten path => "Failed to write " ++ path

/-- The failure of a change that cannot be made. -/
def Step.failure : Step → Failure
  | makeFolder path => .notMade path
  | writeFile path _ => .notWritten path

/-- One operation on the surroundings of a command. -/
inductive Operation where
  | readStandard
  | readFile (path : String)
  | print (text : String)
  | change (step : Step)
  | report (text : String)

/-- What comes back from an operation: the text that was read, if it can be read, or whether the change
was made. -/
@[reducible] def Operation.Reply : Operation → Type
  | readStandard => Option String
  | readFile _ => Option String
  | print _ => Unit
  | change _ => Bool
  | report _ => Unit

/-- What a command does, one operation after the other. -/
inductive Action (α : Type) where
  | done (result : α)
  | fail (e : Failure)
  | perform (operation : Operation) (next : operation.Reply → Action α)

namespace Action

variable {α β : Type}

/-- Goes on with a result. -/
def bind : Action α → (α → Action β) → Action β
  | done a, f => f a
  | fail e, _ => fail e
  | perform operation next, f => perform operation fun reply => (next reply).bind f

instance : Monad Action where
  pure := done
  bind := bind

/-- A result or failure without any operation. -/
def ofExcept : Except Failure α → Action α
  | .ok a => done a
  | .error e => fail e

/-- Reads the standard input. -/
def readStandard : Action (Option String) :=
  perform .readStandard done

/-- Reads a file. -/
def readFile (path : String) : Action (Option String) :=
  perform (.readFile path) done

/-- Prints a text. -/
def print (text : String) : Action Unit :=
  perform (.print text) done

/-- Makes a change, and fails if it cannot be made. -/
def change (step : Step) : Action Unit :=
  perform (.change step) fun made => if made then done () else fail step.failure

/-- Makes changes up to the first that cannot be made. -/
def changeAll : List Step → Action Unit
  | [] => done ()
  | step :: steps => do
    change step
    changeAll steps

/-- Reports how it went. -/
def report (text : String) : Action Unit :=
  perform (.report text) done

end Action

/-- Where commands run: what can be read at a place, each text if it can be read, and what becomes of
the place by a change, if it can be made. -/
structure World (σ : Type) where
  standard : σ → Option String
  file : σ → String → Option String
  change? : σ → Step → Option σ

/-- What a run has led to. -/
structure Session (σ : Type) where
  place : σ
  output : String
  summary : Option String

/-- The reply to an operation, and what the operation leads to. -/
def Session.reply {σ : Type} (w : World σ) (s : Session σ) :
    (operation : Operation) → operation.Reply × Session σ
  | .readStandard => (w.standard s.place, s)
  | .readFile path => (w.file s.place path, s)
  | .print text => ((), { s with output := s.output ++ text })
  | .change step =>
    match w.change? s.place step with
    | some place => (true, { s with place := place })
    | none => (false, s)
  | .report text => ((), { s with summary := some text })

/-- Runs an action in a world. -/
def Action.run {σ α : Type} (w : World σ) : Action α → Session σ → Except Failure α × Session σ
  | done a, s => (.ok a, s)
  | fail e, s => (.error e, s)
  | perform operation next, s =>
    (next (s.reply w operation).1).run w (s.reply w operation).2

end CommandLine
end DesignPages
