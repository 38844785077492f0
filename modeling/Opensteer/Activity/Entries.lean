import Opensteer.Core.Json

/-!
# The entries of a turn's work

The entries of `client.ts`, as far as the trace's rows read them.
-/

namespace Opensteer.Activity

/-- `PlaceIdentity`. -/
inductive Place
  | browser (sessionId surfaceId : Text)
  | app (machineId appKey : Text)
  | phone (machineId display : Text)
deriving DecidableEq

def placeIdentityKey : Place → Text
  | .browser sessionId surfaceId => units "browser:" ++ sessionId ++ units ":" ++ surfaceId
  | .app machineId appKey => units "app:" ++ machineId ++ units ":" ++ appKey
  | .phone machineId display => units "phone:" ++ machineId ++ units ":" ++ display

structure PlaceEntry where
  id : Text
  runId : Text
  place : Place
  site : Option Text
  title : Text
deriving DecidableEq

inductive Effect
  | read
  | write
deriving DecidableEq

structure ComputerApp where
  app : Text
  bundleId : Text
  computer : Text
  runnerId : Text
deriving DecidableEq

structure Phone where
  computer : Text
  runnerId : Text
deriving DecidableEq

structure IntegrationCallSubject where
  account : Text
  computerApp : Option ComputerApp
  effect : Effect
  phone : Option Phone
  integration : Text
  operationName : Text
  operationTitle : Text
deriving DecidableEq

structure ToolIdentity where
  namespace_ : Text
  name : Text
deriving DecidableEq

inductive ToolState
  | done
  | failed
  | running
  | stopped
deriving DecidableEq

structure ToolEntry where
  id : Text
  runId : Option Text
  callId : Text
  nodeId : Option Text
  arguments : Json
  integration : Option IntegrationCallSubject
  output : Option Text
  state : ToolState
  streamText : Text
  tool : Option ToolIdentity

inductive MessageKind
  | assistant
  | input
  | continuation
deriving DecidableEq

inductive AuthorKind
  | human
  | agent
  | trigger
  | platform
deriving DecidableEq

structure MessageEntry where
  id : Text
  runId : Option Text
  addressedToUserId : Option Text
  author : AuthorKind
  body : Text
  messageKind : MessageKind
  streaming : Bool
deriving DecidableEq

structure ReasoningEntry where
  id : Text
  runId : Option Text
  text : Text
deriving DecidableEq

structure NodeEntry where
  id : Text
  runId : Option Text
  nodeId : Text
  originCallId : Option Text
  parentNodeId : Option Text
  title : Text
deriving DecidableEq

structure RequestReceiptEntry where
  id : Text
  runId : Option Text
  requestId : Text
  outcome : Text
deriving DecidableEq

inductive WorkEntry
  | message (entry : MessageEntry)
  | node (entry : NodeEntry)
  | place (entry : PlaceEntry)
  | reasoning (entry : ReasoningEntry)
  | request (entry : RequestReceiptEntry)
  | tool (entry : ToolEntry)

def WorkEntry.id : WorkEntry → Text
  | .message entry => entry.id
  | .node entry => entry.id
  | .place entry => entry.id
  | .reasoning entry => entry.id
  | .request entry => entry.id
  | .tool entry => entry.id

def WorkEntry.isPlace : WorkEntry → Bool
  | .place _ => true
  | _ => false

end Opensteer.Activity
