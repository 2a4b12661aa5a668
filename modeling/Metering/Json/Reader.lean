import Metering.Json.Token

/-! # JSON texts

Values are built over a stack of open arrays and objects; each token is looked at once, so the
reader recurses on the list of tokens alone and nesting has no limit of its own.
-/
namespace Metering.Json

/-- An array or object whose closing bracket is still to come; what it holds is latest first. -/
inductive Frame
  | items (done : List Json)
  | members (done : List (Option String × Json)) (key : Option String)

inductive Expect
  | value
  | itemOrClose
  | keyOrClose (done : List (Option String × Json))
  | key (done : List (Option String × Json))
  | colon (done : List (Option String × Json)) (key : Option String)
  | next

def Frame.take (v : Json) : Frame → Frame
  | .items done => .items (v :: done)
  | .members done key => .members ((key, v) :: done) none

/-- What stands after a finished value: either it is the whole text, or its frame goes on. -/
def settle (stack : List Frame) (v : Json) : List Frame ⊕ Json :=
  match stack with
  | [] => .inr v
  | frame :: rest => .inl (frame.take v :: rest)

def build (stack : List Frame) (expect : Expect) : List Token → Option Json
  | [] => none
  | t :: rest =>
    let finish (stack : List Frame) (v : Json) : Option Json :=
      match settle stack v with
      | .inl stack => build stack .next rest
      | .inr v => if rest.isEmpty then some v else none
    let value (stack : List Frame) : Option Json :=
      match t with
      | .null => finish stack .null
      | .bool b => finish stack (.bool b)
      | .number n => finish stack (.number n)
      | .string s => finish stack (.string s)
      | .openArray => build (.items [] :: stack) .itemOrClose rest
      | .openObject => build stack (.keyOrClose []) rest
      | _ => none
    match expect with
    | .value => value stack
    | .itemOrClose =>
      match t, stack with
      | .closeArray, .items done :: below => finish below (.array done.reverse)
      | _, _ => value stack
    | .keyOrClose done =>
      match t with
      | .closeObject => finish stack (.object done.reverse)
      | .string key => build stack (.colon done key) rest
      | _ => none
    | .key done =>
      match t with
      | .string key => build stack (.colon done key) rest
      | _ => none
    | .colon done key =>
      match t with
      | .colon => build (.members done key :: stack) .value rest
      | _ => none
    | .next =>
      match t, stack with
      | .comma, .items done :: below => build (.items done :: below) .value rest
      | .closeArray, .items done :: below => finish below (.array done.reverse)
      | .comma, .members done _ :: below => build below (.key done) rest
      | .closeObject, .members done _ :: below => finish below (.object done.reverse)
      | _, _ => none

def read? (text : String) : Option Json := do
  build [] .value (← tokens? text)

end Metering.Json
