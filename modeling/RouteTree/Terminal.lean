/-!
# Lines for a terminal

Progress is printed in lines with colours and marks.  Each function here is one shape of
line, with its newline.
-/

namespace RouteTree.Terminal

/-- A text in a style, which ends with it. -/
def styled (code text : String) : String := "\x1b[" ++ code ++ "m" ++ text ++ "\x1b[0m"

/-- The text in bold. -/
def bold (text : String) : String := styled "1" text

/-- The text in a faint colour. -/
def dim (text : String) : String := styled "2" text

/-- The text in green. -/
def green (text : String) : String := styled "32" text

/-- The text in yellow. -/
def yellow (text : String) : String := styled "33" text

/-- The name and version of the program. -/
def name : String := "ejecta"

/-- The version of the program. -/
def version : String := "0.3.0"

/-- The lines that a command starts with. -/
def banner (command : String) : String :=
  "\n  " ++ bold name ++ " " ++ command ++ " " ++ dim ("v" ++ version) ++ "\n\n"

/-- What is about to be done. -/
def arrow (text : String) : String := "  " ++ green "→" ++ " " ++ text ++ "\n"

/-- What has been done. -/
def done (text : String) : String := "  " ++ green "✓" ++ " " ++ text ++ "\n"

/-- The step that is going on. -/
def step (number total : Nat) (text : String) : String :=
  "  " ++ bold ("[" ++ toString number ++ "/" ++ toString total ++ "]") ++ " " ++ text ++ "...\n"

/-- Something about a step. -/
def detail (text : String) : String := "        " ++ dim text ++ "\n"

/-- What a step has made. -/
def made (text : String) : String := "        " ++ green "✓" ++ " " ++ text ++ "\n"

/-- Something that may be wrong. -/
def warning (text : String) : String := "  " ++ yellow "warning" ++ ": " ++ text ++ "\n"

end RouteTree.Terminal
