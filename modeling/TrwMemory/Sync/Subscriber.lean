import TrwMemory.Library.Transition
import TrwMemory.Storage.EvidenceCodec

/-!
The subscriber to the platform's event stream (`sync/subscriber.py`), and the stream that a
server sends: after the event that `Last-Event-ID` names, or from its beginning. A connection
can end at any line, and the handler of an event fails in one of the ways that the loop tells
apart.

The contact switch and `stop` end a connection as a failure of the network does. Waiting,
locks and logs are left out.
-/
namespace TrwMemory.Sync

open Library Library.Transition Storage

/-- The subscriber's fields that a line reads or sets. -/
structure Subscriber where
  lastEventId : Option String
  pendingEventId : Option String
  pendingEventType : Option String
  deriving DecidableEq

/-- `line[len(field):]` of a line that starts with `field`. -/
def fieldOf (field line : String) : Option String :=
  if field.toList.isPrefixOf line.toList then
    some (String.ofList (line.toList.drop field.toList.length))
  else none

/-- What is truthy. -/
def nonempty (text : String) : Option String := if text = "" then none else some text

/-- The event names that are dispatched. -/
def isLearningEvent (type : String) : Bool :=
  type == "learning_published" || type == "learning_updated" || type == "learning_retired"

/-- `data[key] = value`. -/
def setItem (fields : List (String × Json)) (key : String) (v : Json) : List (String × Json) :=
  if fields.any fun field => field.1 == key then
    fields.map fun field => if field.1 == key then (key, v) else field
  else fields ++ [(key, v)]

/-- What a line leads to besides the fields it sets: a call of the handler, or an error that
ends the thread. -/
inductive LineResult where
  | quiet
  | dispatched (data : List (String × Json))
  | raised (error : PyError)

section

variable (py : Python)

/-- The name of an event: that of its `event:` line, or the payload's. -/
def eventType (pending : Option String) (data : List (String × Json)) : Except PyError String :=
  match pending with
  | some type => .ok type
  | none => ((Json.field? "type" data).elim (.ok "") py.strOfJson)

/-- A `data:` line's text, under the pending id and name. -/
def processData (s : Subscriber) (text : String) : Subscriber × LineResult :=
  let cleared := { s with pendingEventId := none, pendingEventType := none }
  match py.loads text with
  | .error .decode => (cleared, .quiet)
  | .error error => (cleared, .raised error.toPyError)
  | .ok (.obj data) =>
      match eventType py s.pendingEventType data with
      | .error error => (cleared, .raised error)
      | .ok type =>
          if isLearningEvent type then
            ({ cleared with lastEventId := s.pendingEventId.or s.lastEventId },
              .dispatched (setItem data "type" (.str type)))
          else (cleared, .quiet)
  | .ok _ => (cleared, .quiet)

/-- `_process_line`, up to what the handler does. -/
def processLine (s : Subscriber) (line : String) : Subscriber × LineResult :=
  match fieldOf "id:" line with
  | some text => ({ s with pendingEventId := nonempty (pyStrip text) }, .quiet)
  | none =>
      match fieldOf "event:" line with
      | some text => ({ s with pendingEventType := nonempty (pyStrip text) }, .quiet)
      | none =>
          match (fieldOf "data:" line).bind fun text => nonempty (pyStrip text) with
          | some text => processData py s text
          | none => (s, .quiet)

/-- An event as the server sends it: texts after the names of the fields. -/
structure Frame where
  id : Option String
  type : Option String
  data : String

/-- The lines before the payload. -/
def Frame.header (f : Frame) : List String :=
  (f.id.map fun text => "id:" ++ text).toList ++ (f.type.map fun text => "event:" ++ text).toList

def Frame.lines (f : Frame) : List String := f.header ++ ["data:" ++ f.data, ""]

/-- The id that a client learns of an event. -/
def Frame.eventId (f : Frame) : Option String := f.id.bind fun text => nonempty (pyStrip text)

/-- The payload of an event that has to be handled. -/
def Frame.wanted (f : Frame) : Bool :=
  match (nonempty (pyStrip f.data)).map py.loads with
  | some (.ok (.obj data)) =>
      match eventType py (f.type.bind fun text => nonempty (pyStrip text)) data with
      | .ok type => isLearningEvent type
      | .error _ => false
  | _ => false

/-- How a call of the handler ends: an error of `json.loads` is taken for one of the payload's,
an error of the connection ends it, any other ends the thread. -/
inductive Handling where
  | completes | swallowed | disconnects | kills
  deriving DecidableEq

/-- What the lines that were read lead to. -/
inductive Ending where
  | open | disconnected | killed
  deriving DecidableEq

/-- The lines of a frame, one after the other, and whether its handler completed. -/
def processLines (handling : Handling) (s : Subscriber) : List String → Subscriber × Bool × Ending
  | [] => (s, false, .open)
  | line :: lines =>
      match processLine py s line with
      | (s, .quiet) => processLines handling s lines
      | (s, .raised _) => (s, false, .killed)
      | (s, .dispatched _) =>
          match handling with
          | .completes =>
              let (s, _, ending) := processLines handling s lines
              (s, true, ending)
          | .swallowed => processLines handling s lines
          | .disconnects => (s, false, .disconnected)
          | .kills => (s, false, .killed)

end

/-- The events of a stream, in its order; an id is one event's. -/
structure EventStream where
  frames : List Frame
  distinct : ∀ (i j : Nat) (c : String), frames[i]?.bind Frame.eventId = some c →
    frames[j]?.bind Frame.eventId = some c → i = j

/-- The subscriber's thread against the stream: the next event of the open connection, and the
events whose handler completed. -/
structure Listening where
  subscriber : Subscriber
  next : Option Nat
  handled : List Nat
  alive : Bool
  deriving DecidableEq

def Listening.initial : Listening := ⟨⟨none, none, none⟩, none, [], true⟩

inductive StreamEvent where
  | connect
  /-- The next event arrives whole. -/
  | frame (handling : Handling)
  /-- The connection ends within the next event, before its payload. -/
  | cut (lines : Nat)
  | disconnect

/-- Where the server begins: after the event that the header names. -/
def resume (frames : List Frame) (header : Option String) : Nat :=
  match header with
  | none => 0
  | some c =>
      match frames.findIdx? fun f => f.eventId = some c with
      | some i => i + 1
      | none => 0

/-- The `Last-Event-ID` of the next connect. -/
def Subscriber.header (s : Subscriber) : Option String := s.lastEventId.bind nonempty

section

variable (py : Python) (stream : EventStream)

def listen (s : Listening) : StreamEvent → Option Listening
  | .connect =>
      match s.alive, s.next with
      | true, none => some { s with next := some (resume stream.frames s.subscriber.header) }
      | _, _ => none
  | .frame handling => do
      let i ← s.next
      let f ← stream.frames[i]?
      let (subscriber, done, ending) := processLines py handling s.subscriber f.lines
      return {
        subscriber
        next := if ending = .open then some (i + 1) else none
        handled := if done then i :: s.handled else s.handled
        alive := ending != .killed }
  | .cut lines => do
      let i ← s.next
      let f ← stream.frames[i]?
      let (subscriber, _, _) :=
        processLines py .completes s.subscriber (f.header.take lines)
      return { s with subscriber, next := none }
  | .disconnect =>
      match s.next with
      | some _ => some { s with next := none }
      | none => none

def listener : Machine Listening StreamEvent := ⟨listen py stream⟩

end

end TrwMemory.Sync
