import BlackBull.RouteTrie
import BlackBull.RankedSearch

/-!
# Routing over the list of routes

What a lookup is for, said of the list of the routes in the order of their registration. Of the
routes that serve the request the one of least rank is taken: at the first segment where two of them
differ in kind, a static segment goes before a parameter and a parameter before a wildcard.
-/

namespace BlackBull.Routing

variable {η μ ν : Type}

structure Route (η μ : Type) where
  pattern : List Segment
  methods : List μ
  scheme : SchemeKey
  handler : η

def wildcardLast : List Segment → Bool
  | [] => true
  | .wildcard _::rest => rest.isEmpty
  | _::rest => wildcardLast rest

def Registration.route? (registration : Registration η μ) : Option (Route η μ) :=
  let pattern := (segmentsOf registration.path).map parseSegment
  if wildcardLast pattern then
    some ⟨pattern,registration.methods,registration.scheme,registration.handler⟩
  else none

def capture : List Segment → List Text → Option (List (Text × Converter × Text))
  | [],[] => some []
  | .static text::pattern,segment::rest =>
    if text=segment then capture pattern rest else none
  | .param name converter::pattern,segment::rest =>
    (capture pattern rest).map fun captured => (name,converter,segment)::captured
  | .wildcard name::_,segment::rest => some [(name,.str,joined (segment::rest))]
  | _,_ => none

/-- The captured texts converted, and entered under their names. -/
def convertCaptured (converters : Converters ν) (captured : List (Text × Converter × Text)) :
    Option (Params ν) :=
  (captured.mapM fun capture =>
    (converters.convert capture.2.1 capture.2.2).map (Prod.mk capture.1)).map
      (List.foldl (fun params pair => params.set pair.1 pair.2) [])

def Segment.precedence : Segment → ℕ
  | .static _ => 0
  | .param _ _ => 1
  | .wildcard _ => 2

namespace Route

/-- Ranks are compared like words, segment by segment. -/
def rank (route : Route η μ) : List ℕ := route.pattern.map Segment.precedence

def params? (route : Route η μ) (converters : Converters ν) (segments : List Text) :
    Option (Params ν) :=
  (capture route.pattern segments).bind (convertCaptured converters)

end Route

section Reference

variable [DecidableEq μ] (converters : Converters ν) (method : μ) (scheme : Scheme)

def Route.serve? (segments : List Text) (route : Route η μ) : Option (η × Params ν) :=
  if route.methods.contains method ∧ routeSchemeMatches scheme route.scheme then
    (route.params? converters segments).map (Prod.mk route.handler)
  else none

def allowedMethods (routes : List (Route η μ)) (segments : List Text) : Finset μ :=
  (routes.filter fun route => routeSchemeMatches scheme route.scheme &&
    (route.params? converters segments).isSome).foldr (fun route => (route.methods.toFinset ∪ ·)) ∅

def naiveLookup (routes : List (Route η μ)) (path : Text) : Found η μ ν :=
  let segments := segmentsOf path
  match leastRanked Route.rank (Route.serve? converters method scheme segments) routes with
  | some (handler,params) => ⟨some handler,params,∅⟩
  | none => ⟨none,[],allowedMethods converters scheme routes segments⟩

end Reference

end BlackBull.Routing
