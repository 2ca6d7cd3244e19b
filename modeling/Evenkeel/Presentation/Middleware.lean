import Mathlib.Data.Int.Order.Basic
import Mathlib.Tactic.Common

/-!
# The Observability Middleware

`presentation/http/middleware.py`, as far as it makes labels: which template a request is
counted under, and what the metrics port is told when the application is done with it. The
correlation id and the log line are not here.

- `buildRoutePatterns`: the templates of a route table
- `ObservabilityMiddleware.call`: one request
- `observed`: what the port is told of a stream of requests

## Key Results

- `handlerLabel_mem`: a request is counted under a template, or as unmatched
- `observed_eq`: each request is counted as if it were the first
-/

namespace Evenkeel.Presentation

/-! ## Routes -/

/-- An entry of `routes`. An included router is a wrapper with the router that it was built
    from; what has routes of its own is searched in their place, unless it has none. -/
inductive Route where
  | leaf (path : String)
  | mount (path : String) (routes : List Route)
  | included (pathPrefix : String) (routes : List Route)

/-- A compiled template. -/
structure RoutePattern where
  fullmatch : String → Bool
  template : String

/-- `prefix + path or "/"`. -/
def fullTemplate (pathPrefix path : String) : String :=
  if pathPrefix ++ path = "" then "/" else pathPrefix ++ path

section

-- Starlette's `compile_path`, and `fullmatch` of what it returns
variable (compilePath : String → String → Bool)

mutual

def Route.patterns (pathPrefix : String) : Route → List RoutePattern
  | .included own routes => buildRoutePatterns (pathPrefix ++ own) routes
  | .mount path [] =>
    [⟨compilePath (fullTemplate pathPrefix path), fullTemplate pathPrefix path⟩]
  | .mount path (route :: routes) =>
    route.patterns (pathPrefix ++ path) ++ buildRoutePatterns (pathPrefix ++ path) routes
  | .leaf path => [⟨compilePath (fullTemplate pathPrefix path), fullTemplate pathPrefix path⟩]

/-- `_build_route_patterns`. -/
def buildRoutePatterns (pathPrefix : String) : List Route → List RoutePattern
  | [] => []
  | route :: routes => route.patterns pathPrefix ++ buildRoutePatterns pathPrefix routes

end

end

/-! ## Requests -/

/-- What the server hands over. -/
structure Request where
  kind : String
  method : Option String
  path : Option String
  headers : List (List UInt8 × List UInt8)
  body : List UInt8

/-- What the application sends: the start of a response, or anything else. -/
inductive Message where
  | start (status : ℤ)
  | other

/-- How the application is left. `exited` is a `BaseException` that is no `Exception` and no
    cancellation. -/
inductive Ending where
  | returned
  | cancelled
  | raised (exceptionType : String)
  | exited
  deriving DecidableEq

/-- One request, and what the application made of it. -/
structure Exchange where
  request : Request
  messages : List Message
  ending : Ending

/-- The calls of `MetricsPort`, with the labels that they pass. -/
inductive MetricsCall where
  | requestStarted
  | requestFinished (method handler : String) (statusCode : ℤ)
  | requestFailed (method handler exceptionType : String)
  deriving DecidableEq

/-- `status_code` at the end: of the last response that was started. -/
def statusCode (messages : List Message) : ℤ :=
  messages.foldl (fun code message =>
    match message with
    | .start status => status
    | .other => code) 500

/-- The patterns are built on the first request that is counted. -/
structure ObservabilityMiddleware where
  patterns : Option (List RoutePattern) := none

namespace ObservabilityMiddleware

variable (compilePath : String → String → Bool) (routes : List Route)

def compiled (self : ObservabilityMiddleware) : List RoutePattern :=
  match self.patterns with
  | none => buildRoutePatterns compilePath "" routes
  | some patterns => patterns

/-- `_handler_label`: the first template that matches. -/
def handlerLabel (self : ObservabilityMiddleware) (request : Request) : String :=
  match (self.compiled compilePath routes).find? (·.fullmatch (request.path.getD "")) with
  | some pattern => pattern.template
  | none => "unmatched"

/-- `__call__`: what the port is told, one call after the other. -/
def call (self : ObservabilityMiddleware) (x : Exchange) :
    ObservabilityMiddleware × List MetricsCall :=
  if x.request.kind ≠ "http" then (self, [])
  else
    let method := x.request.method.getD ""
    let handler := self.handlerLabel compilePath routes x.request
    let labelled : ObservabilityMiddleware := ⟨some (self.compiled compilePath routes)⟩
    match x.ending with
    | .cancelled =>
      (labelled, [.requestStarted, .requestFailed method handler "CancelledError"])
    | .raised exceptionType =>
      (labelled, [.requestStarted, .requestFailed method handler exceptionType])
    | .returned =>
      (labelled, [.requestStarted, .requestFinished method handler (statusCode x.messages)])
    -- no `except` clause applies
    | .exited => (self, [.requestStarted])

end ObservabilityMiddleware

section

variable (compilePath : String → String → Bool) (routes : List Route)

/-- The calls of the port for requests that are done one after the other. -/
def observedFrom (self : ObservabilityMiddleware) : List Exchange → List MetricsCall
  | [] => []
  | x :: xs =>
    (self.call compilePath routes x).2 ++ observedFrom (self.call compilePath routes x).1 xs

def observed (xs : List Exchange) : List MetricsCall := observedFrom compilePath routes {} xs

/-- The values of the `handler` label. -/
def handlers : List String :=
  "unmatched" :: (buildRoutePatterns compilePath "" routes).map (·.template)

variable {compilePath routes}

namespace ObservabilityMiddleware

/-- The patterns, if there are any yet, are those of the route table. -/
def Current (compilePath : String → String → Bool) (routes : List Route)
    (self : ObservabilityMiddleware) : Prop :=
  self.compiled compilePath routes = buildRoutePatterns compilePath "" routes

variable {self : ObservabilityMiddleware}

theorem Current.call (h : self.Current compilePath routes) (x : Exchange) :
    (self.call compilePath routes x).1.Current compilePath routes := by
  unfold ObservabilityMiddleware.call
  split
  · exact h
  · dsimp only
    split
    · exact h
    · exact h
    · exact h
    · exact h

theorem Current.handlerLabel_eq (h : self.Current compilePath routes) (request : Request) :
    self.handlerLabel compilePath routes request =
      ObservabilityMiddleware.handlerLabel compilePath routes {} request := by
  unfold handlerLabel
  rw [h]
  rfl

theorem Current.call_eq (h : self.Current compilePath routes) (x : Exchange) :
    (self.call compilePath routes x).2 =
      (ObservabilityMiddleware.call compilePath routes {} x).2 := by
  unfold ObservabilityMiddleware.call
  rw [h.handlerLabel_eq]
  split
  · rfl
  · dsimp only
    split <;> rfl

/-- A raw path is never a label. -/
theorem handlerLabel_mem (request : Request) :
    ObservabilityMiddleware.handlerLabel compilePath routes {} request ∈
      handlers compilePath routes := by
  unfold handlerLabel handlers
  split
  · rename_i pattern hfound
    exact List.mem_cons_of_mem _ (List.mem_map_of_mem (List.mem_of_find?_eq_some hfound))
  · exact List.mem_cons_self

end ObservabilityMiddleware

/-- What the port is told of a request does not depend on those before it. -/
theorem observed_eq (xs : List Exchange) : observed compilePath routes xs =
    xs.flatMap fun x => (ObservabilityMiddleware.call compilePath routes {} x).2 := by
  have hfrom : ∀ self : ObservabilityMiddleware, self.Current compilePath routes →
      observedFrom compilePath routes self xs =
        xs.flatMap fun x => (ObservabilityMiddleware.call compilePath routes {} x).2 := by
    induction xs with
    | nil =>
      intro self _
      rfl
    | cons x xs ih =>
      intro self h
      rw [observedFrom, h.call_eq, ih _ (h.call x), List.flatMap_cons]
  exact hfrom {} rfl

end

end Evenkeel.Presentation
