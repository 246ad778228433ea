import JackCompiler.Vm.Command

/-! The text of a machine program: one command on each line. -/

namespace JackCompiler

/-- Labels and function headers start at the margin, all other commands two spaces further in. -/
def Command.indentation : Command → String
  | .label _ | .function _ _ => ""
  | _ => "  "

/-- A command with its indentation and the end of its line. -/
def Command.line (command : Command) : String := command.indentation ++ command.text ++ "\n"

/-- The text of a program is the lines of its commands in order. -/
def renderProgram (commands : List Command) : String := String.join (commands.map Command.line)

end JackCompiler
