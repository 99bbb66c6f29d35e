import Workflow.Graph.Basic
import Workflow.Workspace

/-!
Documents. A document has the form of a level; its entries say of each state what the state does
and, by name, where it leads. Entries are read off the workspace when the document is asked for,
under the names that the level lists.
-/

namespace Workflow

/-- What an entry says of the kind of its state. -/
inductive Content where
  | task (arn : Json) (fields : TaskFields)
  | pass (fields : PassFields)
  | wait (fields : WaitFields)
  | choice (rules : List (Rule String))
  | parallel (fields : ParallelFields)
  | map (fields : MapFields)
  | succeed
  | fail (fields : FailFields)

/-- A state as a document shows it. The way out is the default of a choice; an entry of another kind
that has none is an end. -/
structure Entry where
  name : String
  common : CommonFields
  content : Content
  next : Option String
  retries : List Retry
  catches : List (Catch String)

structure Heading where
  startAt : String
  timeout : Option Nat

abbrev Document := Nested Heading Entry

def Content.type : Content → StateType
  | task _ _ => .task
  | pass _ => .pass
  | wait _ => .wait
  | choice _ => .choice
  | parallel _ => .parallel
  | map _ => .map
  | succeed => .succeed
  | fail _ => .fail

/-- The fields of each kind. Those that are unset are left out. -/
def Content.fields : Content → List (String × Json)
  | task arn f =>
    ("Resource", arn) :: Json.optional "Parameters" f.parameters ++
      Json.optional "ResultPath" f.resultPath ++
      Json.optional "TimeoutSeconds" f.timeoutSeconds ++
      Json.optional "HeartbeatSeconds" f.heartbeatSeconds
  | pass f =>
    Json.optional "Parameters" f.parameters ++ Json.optional "Result" f.result ++
      Json.optional "ResultPath" f.resultPath
  | wait f => f.given
  | parallel f =>
    Json.optional "Parameters" f.parameters ++ Json.optional "ResultPath" f.resultPath
  | map f =>
    Json.optional "ItemsPath" f.itemsPath ++ Json.optional "MaxConcurrency" f.maxConcurrency ++
      Json.optional "Parameters" f.parameters ++ Json.optional "ResultPath" f.resultPath
  | fail f => Json.optional "Error" f.error ++ Json.optional "Cause" f.cause
  | choice _ | succeed => []

def Retry.toJson (r : Retry) : Json :=
  .object [("ErrorEquals", .array r.errors), ("IntervalSeconds", .nat r.intervalSeconds),
    ("MaxAttempts", .nat r.maxAttempts), ("BackoffRate", .number r.backoffRate)]

def Catch.toJson (c : Catch String) : Json :=
  .object ([("ErrorEquals", .array c.errors), ("Next", .string c.target)] ++
    Json.optional "ResultPath" c.resultPath)

def Rule.toJson (r : Rule String) : Json :=
  .object (Json.setField r.condition.fields "Next" (.string r.target))

/-- The fields of an entry that do not refer to other states. -/
def Content.fragment (content : Content) (common : CommonFields) : List (String × Json) :=
  ("Type", .string content.type.name) :: Json.optional "Comment" common.comment ++
    content.fields ++ Json.optional "InputPath" common.inputPath ++
    Json.optional "OutputPath" common.outputPath

namespace Entry

/-- The way out with the handlers of errors, of an entry that leads on or ends. -/
def onward (e : Entry) : List (String × Json) :=
  (match e.next with
    | some name => ("Next", .string name)
    | none => ("End", .bool true)) ::
  (if e.retries.isEmpty then [] else [("Retry", .array (e.retries.map Retry.toJson))]) ++
  (if e.catches.isEmpty then [] else [("Catch", .array (e.catches.map Catch.toJson))])

/-- The fields of an entry that refer to other states, with the documents nested in it. -/
def references (e : Entry) (nested : List Json) : List (String × Json) :=
  match e.content with
  | .choice rules =>
    ("Choices", .array (rules.map Rule.toJson)) ::
      (e.next.map fun name => ("Default", .string name)).toList
  | .parallel _ => ("Branches", .array nested) :: e.onward
  | .map _ => nested.map (("Iterator", ·)) ++ e.onward
  | .task _ _ | .pass _ | .wait _ => e.onward
  | .succeed | .fail _ => []

def toJson (e : Entry) (nested : List Json) : Json :=
  .object (e.content.fragment e.common ++ e.references nested)

end Entry

def Document.toJson : Document → Json :=
  Nested.fold fun heading entries =>
    .object ([("StartAt", .string heading.startAt),
      ("States", .object (entries.map fun e => (e.1.name, e.1.toJson e.2)))] ++
      (heading.timeout.map fun n => ("TimeoutSeconds", Json.nat n)).toList)

namespace Workspace

/-- What a document says of the kind of a state, if it has anything to say of it. -/
def content? (w : Workspace) (s : State) : Option Content :=
  match s.kind with
  | .task resource fields => some (.task resource.arn fields)
  | .pass fields => some (.pass fields)
  | .wait fields => some (.wait fields)
  | .choice rules _ => some (.choice (rules.map fun r => ⟨r.condition, w.nameOf r.target⟩))
  | .parallel fields _ => some (.parallel fields)
  | .map fields _ => some (.map fields)
  | .succeed => some .succeed
  | .fail fields => some (.fail fields)
  | .plain | .unbound => none

/-- The fault of a state that a document has nothing to say of: it has a type without the fields of
the type, or no type. -/
def contentFault (s : State) (untyped : Fault) : Fault :=
  match s.type? with
  | some type => .unsupported type.name "resource"
  | none => untyped

/-- The entry of a member of a level. -/
def entry (w : Workspace) (m : Member) : Except Fault Entry :=
  let s := w.state m.state
  match w.content? s with
  | none => .error (contentFault s .untypedEntry)
  | some content => .ok {
      name := m.name
      common := s.common
      content
      next := s.onward.map w.nameOf
      retries := s.retries
      catches := s.catches.map fun c => ⟨c.errors, w.nameOf c.target, c.resultPath⟩ }

def heading (w : Workspace) (h : Header) : Heading := ⟨(w.state h.start).name, h.timeout⟩

/-- The document of a level. -/
def document (w : Workspace) (level : Level) : Except Fault Document :=
  level.mapExcept w.heading w.entry

/-- The fields of a state that do not refer to other states. -/
def fragment (w : Workspace) (s : StateId) : Except Fault Json :=
  match w.content? (w.state s) with
  | none => .error (contentFault (w.state s) (.unsupported "NoneType" "value"))
  | some content => .ok (.object (content.fragment (w.state s).common))

end Workspace
end Workflow
