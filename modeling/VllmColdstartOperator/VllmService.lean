import VllmColdstartOperator.Kubernetes

/-!
# `VllmService`

The custom resource one replica is described by, and the lifecycle phase its
controller derives from the ready replicas of the owned Deployment.
-/

namespace VllmColdstartOperator

inductive WarmupStrategy where
  | eager
  | graph
  deriving DecidableEq, Repr

structure ApiKeySecretRef where
  name : String
  key : String
  deriving DecidableEq, Repr

/-- Latency objective; the two doubles are kept as bit patterns. -/
structure Objective where
  ttftSeconds : BitVec 64
  percentile : BitVec 64
  deriving DecidableEq, Repr

structure Budget where
  eurPerMonth : BitVec 64
  deriving DecidableEq, Repr

structure VllmServiceSpec where
  model : String
  replicas : Int32
  warmupStrategy : WarmupStrategy
  image : String
  gpu : Int32
  healthPath : String
  runtimeClassName : Option String
  extraArgs : List String
  cpu : Option String
  memory : Option String
  nodeName : Option String
  modelCacheHostPath : Option String
  apiKeySecretRef : Option ApiKeySecretRef
  objective : Option Objective
  budget : Option Budget
  deriving DecidableEq

structure VllmServiceStatus where
  phase : String
  message : String
  deriving DecidableEq, Repr

structure VllmService where
  metadata : ObjectMeta
  spec : VllmServiceSpec
  status : Option VllmServiceStatus

def VllmService.name (service : VllmService) : String := service.metadata.name

/-- Lifecycle phase derived from the owned Deployment's ready replicas. -/
def phaseFor (desired ready : Int32) : String × String :=
  if ready = 0 then
    ("Pending", "Deployment created; no replica ready yet")
  else if ready < desired then
    ("Warming", toString ready ++ "/" ++ toString desired ++
      " replicas ready; warming up")
  else
    ("Ready", toString ready ++ "/" ++ toString desired ++
      " replicas ready and warm")

end VllmColdstartOperator
