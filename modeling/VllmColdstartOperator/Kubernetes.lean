import VllmColdstartOperator.Foundation.BTreeMap
import VllmColdstartOperator.Foundation.Text

/-!
# The cluster objects the controllers read

The parts of object metadata and of `Node` the modelled functions read or
write.  `Rfc3339` stands for the timestamp parser, an instant in nanoseconds,
and `Clock` is the one clock read of a reconcile together with that parser.
-/

namespace VllmColdstartOperator

open Foundation

structure OwnerReference where
  kind : String
  name : String
  uid : String
  controller : Bool
  deriving DecidableEq, Repr

/-- An API object always has a name; `uid` is empty until the server sets it. -/
structure ObjectMeta where
  name : String
  ns : Option String
  uid : String
  labels : Option (BTreeMap String String)
  ownerReferences : List OwnerReference

def ObjectMeta.label (metadata : ObjectMeta) (key : String) : Option String :=
  metadata.labels.bind fun labels => labels[key]?

structure NodeSpec where
  unschedulable : Option Bool
  deriving DecidableEq, Repr

structure NodeStatus where
  allocatable : Option (BTreeMap String String)

structure Node where
  metadata : ObjectMeta
  spec : Option NodeSpec
  status : Option NodeStatus

def Node.name (node : Node) : String := node.metadata.name

/-- `spec.unschedulable`, what `kubectl cordon` sets; absent reads as false. -/
def Node.isUnschedulable (node : Node) : Bool :=
  (node.spec.bind NodeSpec.unschedulable).getD false

abbrev Rfc3339 := String → Option Int

structure Clock where
  now : Int
  parseFromRfc3339 : Rfc3339

/-- Whole seconds, rounded towards zero. -/
def numSeconds (nanoseconds : Int) : Int := nanoseconds.tdiv 1000000000

end VllmColdstartOperator
