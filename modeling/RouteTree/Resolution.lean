import RouteTree.NamedList

/-!
# How a request resolves

The answer to a request is its outcome, the parameters that were bound, and the
handlers that ran.  On the way the *runtime* is asked: whether a forward is taken,
and whether a rewrite or a redirect is carried out.  A runtime may remember what it
was asked, so each of its answers comes with its next state.
-/

namespace RouteTree

/-- The value of a parameter. -/
inductive Param where
  /-- one component of the request path -/
  | single (text : String)
  /-- the components from a position on -/
  | rest (texts : List String)
  deriving DecidableEq, Repr, Inhabited

/-! ## Parameters by name -/

/-- The parameters bound so far, in the order of their names. -/
structure Params where
  entries : List (String × Param) := []
  deriving DecidableEq, Repr, Inhabited

namespace Params

/-- Nothing is bound. -/
def empty : Params := {}

/-- Puts a named value where its name belongs, in place of an earlier value of that
name. -/
def place (name : String) (value : Param) : List (String × Param) → List (String × Param)
  | [] => [(name, value)]
  | (other, old) :: rest =>
    if other = name then (name, value) :: rest
    else if name < other then (name, value) :: (other, old) :: rest
    else (other, old) :: place name value rest

/-- Binds a parameter; the latest binding of a name counts. -/
def insert (params : Params) (name : String) (value : Param) : Params :=
  ⟨place name value params.entries⟩

/-- The value of a parameter. -/
def get? (params : Params) (name : String) : Option Param :=
  params.entries.lookup name

@[simp]
theorem get?_empty (name : String) : empty.get? name = none := rfl

theorem lookup_place (name other : String) (value : Param) (entries : List (String × Param)) :
    (place name value entries).lookup other =
      if other = name then some value else entries.lookup other := by
  induction entries with
  | nil => rw [place, lookup_cons_pair]
  | cons first rest ih =>
    obtain ⟨known, old⟩ := first
    by_cases hknown : known = name
    · rw [place, if_pos hknown, lookup_cons_pair, lookup_cons_pair, hknown]
      by_cases h : other = name <;> simp [h]
    · by_cases hlt : name < known
      · rw [place, if_neg hknown, if_pos hlt, lookup_cons_pair]
      · rw [place, if_neg hknown, if_neg hlt, lookup_cons_pair, lookup_cons_pair, ih]
        by_cases h : other = known
        · have : other ≠ name := by rw [h]; exact hknown
          simp [h, hknown]
        · simp [h]

/-- The latest binding of a name counts, and no other name is touched. -/
@[simp]
theorem get?_insert (params : Params) (name other : String) (value : Param) :
    (params.insert name value).get? other =
      if other = name then some value else params.get? other :=
  lookup_place name other value params.entries

end Params

/-! ## Outcomes -/

/-- How a request ends. -/
inductive Outcome where
  /-- at a page -/
  | next (internalPath externalPath : String)
  /-- at a rewrite that is carried out -/
  | rewrite (internalPath : String) (location : Option String)
  /-- at a redirect that is carried out -/
  | redirect (internalPath : String) (location : Option String)
  /-- outside the application -/
  | external
  /-- without an answer -/
  | notFound
  /-- at something that is not a route -/
  | skip
  deriving DecidableEq, Repr, Inhabited

/-- The word for the sort of outcome. -/
def Outcome.sort : Outcome → String
  | .next .. => "NEXT"
  | .rewrite .. => "REWRITE"
  | .redirect .. => "REDIRECT"
  | .external => "EXTERNAL"
  | .notFound => "NOT_FOUND"
  | .skip => "SKIP"

/-- The whole answer to a request. -/
structure Resolution where
  outcome : Outcome
  /-- what was bound on the way -/
  params : Params
  /-- the internal paths of the handlers that ran, in order -/
  handlers : List String
  deriving DecidableEq, Repr, Inhabited

/-! ## The runtime -/

/-- What runs the handlers and takes the decisions.  `σ` is what it remembers. -/
structure Runtime (σ : Type) where
  /-- runs a middleware -/
  middleware : String → Params → σ → σ
  /-- decides whether a forward is taken -/
  forward : String → Params → σ → Bool × σ
  /-- decides whether a rewrite is carried out -/
  rewrite : String → Params → σ → Bool × σ
  /-- decides whether a redirect is carried out -/
  redirect : String → Params → σ → Bool × σ

/-- A question that was put to a runtime, with the answer it gave. -/
inductive Call where
  | middleware (internalPath : String) (params : Params)
  | forward (internalPath : String) (params : Params) (answer : Bool)
  | rewrite (internalPath : String) (params : Params) (answer : Bool)
  | redirect (internalPath : String) (params : Params) (answer : Bool)
  deriving DecidableEq, Repr, Inhabited

namespace Runtime

/-- Takes no forward and carries out every rewrite and redirect. -/
def passthrough : Runtime Unit where
  middleware _ _ state := state
  forward _ _ state := (false, state)
  rewrite _ _ state := (true, state)
  redirect _ _ state := (true, state)

/-- Decides by internal path and remembers every call in order. -/
def recording (forward rewrite redirect : String → Bool) : Runtime (List Call) where
  middleware path params calls := calls ++ [.middleware path params]
  forward path params calls := (forward path, calls ++ [.forward path params (forward path)])
  rewrite path params calls := (rewrite path, calls ++ [.rewrite path params (rewrite path)])
  redirect path params calls := (redirect path, calls ++ [.redirect path params (redirect path)])

end Runtime
end RouteTree
