import StackTemplate.Command.Run

/-!
# The command line program

Reads the template that the arguments name, runs the command, and writes what it
leaves behind.
-/

namespace StackTemplate

/-- The octets of a file with its full path; none if it cannot be read. -/
def readTemplateFile (name : String) : IO (Except LoadError Template) := do
  try
    let path ← IO.FS.realPath name
    let octets ← IO.FS.readBinFile path
    return Template.ofFile path.toString (some octets)
  catch _ => return .error .unreadable

/-- The template that an invocation names. -/
def readTemplate (invocation : Command.Invocation) : IO (Except LoadError Template) := do
  match invocation.file with
  | some name => readTemplateFile name
  | none => return Template.parse (← (← IO.getStdin).readToEnd)

/-- What a command line leaves behind. -/
def outcomeOf (arguments : List String) : IO Command.Outcome := do
  match Command.Invocation.ofArguments? arguments with
  | none => return .usage
  | some invocation => return invocation.run (← readTemplate invocation)

end StackTemplate

/-- Runs the program. -/
def main (arguments : List String) : IO UInt32 := do
  let outcome ← StackTemplate.outcomeOf arguments
  IO.print outcome.output
  unless outcome.error.isEmpty do IO.eprintln outcome.error
  return UInt32.ofNat outcome.exitCode
