import BlackBull.MqttFields

/-!
# MQTT: topic names and topic filters

Matching and validation work on the levels between the slashes. A shared
subscription `$share/name/filter` is matched by its filter part.
-/

namespace BlackBull.Mqtt

/-- `text.split('/')`. -/
def levels (text : Text) : List Text := text.splitOn '/'

def sharePrefix : Text := "$share/".toList

/-- What `text.split('/', 1)` gives when there is a slash. -/
def cutSlash (text : Text) : Option (Text × Text) :=
  match text.dropWhile (· ≠ '/') with
  | [] => none
  | _::after => some (text.takeWhile (· ≠ '/'),after)

/-- The name of the share and the filter part. -/
def parseShare (filter : Text) : Option (Text × Text) :=
  if sharePrefix.isPrefixOf filter then cutSlash (filter.drop sharePrefix.length) else none

/-- The loop of `topic_matches_filter`, level by level. -/
def levelsMatch : List Text → List Text → Bool
  | topics,[] => topics.isEmpty
  | topics,level::filter =>
    if level=['#'] then filter.isEmpty
    else
      match topics with
      | [] => false
      | topic::topics => (level=['+'] || level=topic) && levelsMatch topics filter

def topicMatchesLevels (topic filter : Text) : Bool :=
  let topicLevels := levels topic
  let filterLevels := levels filter
  -- A leading wildcard does not match a topic that begins with a dollar sign.
  if (topicLevels.head?.bind List.head?)=some '$' ∧
      (filterLevels.head? = some ['#'] ∨ filterLevels.head? = some ['+']) then false
  else levelsMatch topicLevels filterLevels

def topicMatchesFilter (topic filter : Text) : Bool :=
  if topic=[] then false
  else if sharePrefix.isPrefixOf filter then
    match parseShare filter with
    | none => false
    | some (_,part) => topicMatchesLevels topic part
  else topicMatchesLevels topic filter

def validateTopicName (topic : Text) : Bool :=
  topic≠[] && !(Char.ofNat 0∈topic) && !('+' ∈ topic || '#' ∈ topic)

/-- The loop of `validate_topic_filter` over the levels. -/
def validateLevels : List Text → Except Failure Bool
  | [] => .ok true
  | level::rest =>
    if '#' ∈ level ∧ level≠['#'] then
      .error (.valueError "'#' must occupy an entire level and be preceded by a slash")
    else if '#' ∈ level ∧ rest≠[] then
      .error (.valueError "'#' wildcard must be the last level in a topic filter")
    else if '+' ∈ level ∧ level≠['+'] then
      .error (.valueError "'+' must occupy an entire level")
    else validateLevels rest

def validateFilterPart (work : Text) : Except Failure Bool :=
  if work.count '#' > 1 then
    .error (.valueError "Topic filter must contain at most one '#' wildcard")
  else validateLevels (levels work)

def validateTopicFilter (filter : Text) : Except Failure Bool :=
  if filter=[] then .error (.valueError "Topic filter must not be empty")
  else if Char.ofNat 0∈filter then .ok false
  else if sharePrefix.isPrefixOf filter then
    match parseShare filter with
    | none =>
      .error (.valueError "Shared subscription must be $share/\x7bgroup\x7d/\x7bfilter\x7d")
    | some (share,part) =>
      if share=[] then
        .error (.valueError "Shared subscription must be $share/\x7bgroup\x7d/\x7bfilter\x7d")
      else if '+' ∈ share ∨ '#' ∈ share then
        .error (.valueError
          "Shared subscription share name must not contain wildcards (+ or #)")
      else if part=[] then
        .error (.valueError "Shared subscription filter portion must not be empty")
      else validateFilterPart part
  else validateFilterPart filter

def validFilter (filter : Text) : Bool :=
  match validateTopicFilter filter with
  | .ok valid => valid
  | .error _ => false

example : topicMatchesFilter "a/b/c".toList "$share/g/a/+/#".toList=true := by decide +kernel

example : topicMatchesFilter "$SYS/up".toList "#".toList=false := by decide +kernel

end BlackBull.Mqtt
