/-!
# Why a set of routes cannot be compiled

A compilation fails for one of two causes: a pattern that is not well formed, or
a parameter name that stands for two positions of the request path.  Both carry
the pattern as it was spelled.
-/

namespace RouteTree

/-- What is wrong with a pattern or a path key on its own. -/
inductive PatternFault where
  /-- a catch-all before the last segment -/
  | catchAllNotLast
  /-- the external override before the last segment -/
  | overrideNotLast
  /-- nothing between two slashes -/
  | emptySegment
  /-- a colon alone where a parameter has to be bound -/
  | unnamedDynamic
  /-- an asterisk alone where a parameter has to be bound -/
  | unnamedCatchAll
  deriving DecidableEq, Repr, Inhabited

/-- The fault in words. -/
def PatternFault.reason : PatternFault → String
  | .catchAllNotLast => "catch-all must be the last segment"
  | .overrideNotLast => "external override must be the last segment"
  | .emptySegment => "empty path segment"
  | .unnamedDynamic => "dynamic segment without a name"
  | .unnamedCatchAll => "catch-all segment without a name"

/-- The cause of a failed compilation. -/
inductive CompileError where
  /-- the pattern is not well formed -/
  | malformed (pattern : String) (fault : PatternFault)
  /-- the pattern binds a parameter whose name is bound at another position -/
  | collision (pattern : String) (name : String)
  deriving DecidableEq, Repr, Inhabited

namespace CompileError

/-- A stable word for the sort of error. -/
def code : CompileError → String
  | .malformed .. => "MALFORMED_PATTERN"
  | .collision .. => "PARAM_COLLISION"

/-- The pattern or path key at fault, as spelled. -/
def pattern : CompileError → String
  | .malformed pattern _ => pattern
  | .collision pattern _ => pattern

/-- The cause after the code and the pattern. -/
def detail : CompileError → String
  | .malformed _ fault => fault.reason
  | .collision _ name => "parameter \"" ++ name ++ "\" is already bound"

/-- The full text of the error. -/
def message (error : CompileError) : String :=
  error.code ++ ": " ++ error.pattern ++ ": " ++ error.detail

end CompileError
end RouteTree
