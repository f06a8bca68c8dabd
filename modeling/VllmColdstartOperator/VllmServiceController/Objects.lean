import VllmColdstartOperator.VllmService
import VllmColdstartOperator.FleetTypes

/-!
# What the VllmService controller owns

`buildDeployment`, `buildService` and `buildNetworkPolicyWith` make the three
objects a VllmService owns, and `VllmServiceController.reconcileInner` is the
list of calls of one reconcile, given the ready replicas the applied Deployment
reports.
-/

namespace VllmColdstartOperator

open Foundation Std

/-! ## The objects -/

structure ResourceRequirements where
  requests : Option (BTreeMap String String)
  limits : Option (BTreeMap String String)
  deriving DecidableEq

inductive VolumeSource where
  | emptyDir (medium : String)
  | hostPath (path type : String)
  deriving DecidableEq, Repr

structure Volume where
  name : String
  source : VolumeSource
  deriving DecidableEq, Repr

structure VolumeMount where
  name : String
  mountPath : String
  deriving DecidableEq, Repr

structure Probe where
  path : String
  port : Int32
  initialDelaySeconds : Int32
  periodSeconds : Int32
  failureThreshold : Int32
  deriving DecidableEq

inductive EnvSource where
  | value (text : String)
  | secretKeyRef (name key : String) (optional : Bool)
  deriving DecidableEq, Repr

structure EnvVar where
  name : String
  source : EnvSource
  deriving DecidableEq, Repr

structure ContainerPort where
  name : String
  containerPort : Int32
  deriving DecidableEq

structure SecurityContext where
  allowPrivilegeEscalation : Bool
  dropCapabilities : List String
  seccompProfile : String
  deriving DecidableEq, Repr

structure Container where
  name : String
  image : String
  command : Option (List String)
  args : Option (List String)
  env : Option (List EnvVar)
  ports : List ContainerPort
  resources : ResourceRequirements
  readinessProbe : Option Probe
  volumeMounts : Option (List VolumeMount)
  securityContext : SecurityContext
  preStopSleepSeconds : Int64
  deriving DecidableEq

structure PodSpec where
  containers : List Container
  runtimeClassName : Option String
  nodeSelector : Option (BTreeMap String String)
  volumes : Option (List Volume)
  terminationGracePeriodSeconds : Int64
  deriving DecidableEq

structure PodTemplateSpec where
  labels : BTreeMap String String
  spec : PodSpec
  deriving DecidableEq

structure LabelSelectorRequirement where
  key : String
  operator : String
  values : List String
  deriving DecidableEq, Repr

structure LabelSelector where
  matchLabels : Option (BTreeMap String String) := none
  matchExpressions : Option (List LabelSelectorRequirement) := none
  deriving DecidableEq

structure RollingUpdate where
  maxSurge : Int32
  maxUnavailable : Int32
  deriving DecidableEq

structure DeploymentSpec where
  replicas : Int32
  selector : LabelSelector
  strategy : RollingUpdate
  template : PodTemplateSpec
  deriving DecidableEq

structure Deployment where
  metadata : ObjectMeta
  spec : DeploymentSpec

structure ServicePort where
  name : String
  port : Int32
  targetPort : Int32
  deriving DecidableEq

structure Service where
  metadata : ObjectMeta
  selector : BTreeMap String String
  ports : List ServicePort

structure NetworkPolicyPeer where
  podSelector : Option LabelSelector := none
  namespaceSelector : Option LabelSelector := none
  deriving DecidableEq

structure NetworkPolicyPort where
  protocol : String
  port : Int32
  deriving DecidableEq

structure NetworkPolicyIngressRule where
  peers : List NetworkPolicyPeer
  ports : List NetworkPolicyPort
  deriving DecidableEq

structure NetworkPolicy where
  metadata : ObjectMeta
  podSelector : LabelSelector
  policyTypes : List String
  ingress : List NetworkPolicyIngressRule

namespace VllmServiceController

inductive Error where
  | kube
  | missingNamespace
  | timeout
  deriving DecidableEq, Repr

def manager : String := "vllm-coldstart-operator"

def clientLabel : String := "inference.michelecampi.dev/client"

def defaultMetricsNamespace : String := "monitoring"

def terminationGraceSeconds : Int64 := 120

def preStopSleepSeconds : Int64 := 110

def cpuTerminationGraceSeconds : Int64 := preStopSleepSeconds + 10

/-! ## The pod template -/

variable (svc : VllmService)

/-- A request for GPUs tells a workload from the placeholder. -/
def serving : Bool := 0 < svc.spec.gpu

def resources : ResourceRequirements :=
  let memory := svc.spec.memory.toList.map fun quantity => ("memory", quantity)
  let requests := if serving svc then
      BTreeMap.collect ((svc.spec.cpu.toList.map fun quantity => ("cpu", quantity)) ++ memory)
    else BTreeMap.collect [("cpu", "10m"), ("memory", "16Mi")]
  let limits := if serving svc then
      BTreeMap.collect (("nvidia.com/gpu", toString svc.spec.gpu) :: memory)
    else BTreeMap.collect []
  { requests := if requests.isEmpty then none else some requests
    limits := if limits.isEmpty then none else some limits }

def command : Option (List String) :=
  if serving svc then some ["vllm", "serve"] else none

def args : Option (List String) :=
  if serving svc then
    some ([svc.spec.model, "--host", "0.0.0.0", "--port", "8000"] ++
      (if svc.spec.warmupStrategy = .eager then ["--enforce-eager"] else []) ++
      svc.spec.extraArgs)
  else none

def volumes : Option (List Volume) :=
  if serving svc then
    some (⟨"dshm", .emptyDir "Memory"⟩ :: svc.spec.modelCacheHostPath.toList.map fun path =>
      ⟨"model-cache", .hostPath path "DirectoryOrCreate"⟩)
  else none

def volumeMounts : Option (List VolumeMount) :=
  if serving svc then
    some (⟨"dshm", "/dev/shm"⟩ :: svc.spec.modelCacheHostPath.toList.map fun _ =>
      ⟨"model-cache", "/root/.cache/huggingface"⟩)
  else none

def readinessProbe : Option Probe :=
  if svc.spec.healthPath.isEmpty then none
  else some {
    path := svc.spec.healthPath
    port := 8000
    initialDelaySeconds := 5
    periodSeconds := 5
    failureThreshold := 60 }

def env : Option (List EnvVar) :=
  if serving svc then
    some (⟨"LD_LIBRARY_PATH", .value "/usr/local/nvidia/lib64"⟩ ::
      svc.spec.apiKeySecretRef.toList.map fun ref =>
        ⟨"VLLM_API_KEY", .secretKeyRef ref.name ref.key false⟩)
  else none

def container : Container where
  name := "inference"
  image := svc.spec.image
  command := command svc
  args := args svc
  env := env svc
  ports := [⟨"http", 8000⟩]
  resources := resources svc
  readinessProbe := readinessProbe svc
  volumeMounts := volumeMounts svc
  securityContext := ⟨false, ["ALL"], "RuntimeDefault"⟩
  preStopSleepSeconds := preStopSleepSeconds

def hostnameLabel : String := "kubernetes.io/hostname"

def nodeSelector : Option (BTreeMap String String) :=
  svc.spec.nodeName.map fun nodeName => BTreeMap.collect [(hostnameLabel, nodeName)]

def selectorLabels : BTreeMap String String := BTreeMap.collect [("app", svc.name)]

/-- The labels of the owned objects, and the selector of the Deployment. -/
def ownedLabels : BTreeMap String String :=
  BTreeMap.collect [("app", svc.name), ("app.kubernetes.io/managed-by", manager)]

/-- The pods of a fleet's child carry the fleet label too. -/
def podLabels : BTreeMap String String :=
  match svc.metadata.label fleetLabel with
  | some fleet => (ownedLabels svc).insert fleetLabel fleet
  | none => ownedLabels svc

def podTemplate : PodTemplateSpec where
  labels := podLabels svc
  spec := {
    containers := [container svc]
    runtimeClassName := svc.spec.runtimeClassName
    nodeSelector := nodeSelector svc
    volumes := volumes svc
    terminationGracePeriodSeconds :=
      if serving svc then terminationGraceSeconds else cpuTerminationGraceSeconds }

/-! ## The owned objects -/

def ownedMeta (ns : String) : ObjectMeta where
  name := svc.name
  ns := some ns
  uid := ""
  labels := some (ownedLabels svc)
  ownerReferences := [{
    kind := "VllmService"
    name := svc.name
    uid := svc.metadata.uid
    controller := true }]

def buildDeployment : Except Error Deployment :=
  match svc.metadata.ns with
  | none => .error .missingNamespace
  | some ns => .ok {
      metadata := ownedMeta svc ns
      spec := {
        replicas := svc.spec.replicas
        selector := { matchLabels := some (ownedLabels svc) }
        strategy := ⟨1, 0⟩
        template := podTemplate svc } }

def buildService : Except Error Service :=
  match svc.metadata.ns with
  | none => .error .missingNamespace
  | some ns => .ok {
      metadata := ownedMeta svc ns
      selector := selectorLabels svc
      ports := [⟨"http", 8000, 8000⟩] }

def buildNetworkPolicyWith (metricsNs : String) (extraNs : List String) :
    Except Error NetworkPolicy :=
  match svc.metadata.ns with
  | none => .error .missingNamespace
  | some ns =>
      let clients : NetworkPolicyPeer := {
        podSelector := some { matchLabels := some (BTreeMap.collect [(clientLabel, svc.name)]) } }
      let metrics : NetworkPolicyPeer := {
        namespaceSelector := some {
          matchLabels := some (BTreeMap.collect [("kubernetes.io/metadata.name", metricsNs)]) } }
      let extra : NetworkPolicyPeer := {
        namespaceSelector := some {
          matchExpressions := some [⟨"kubernetes.io/metadata.name", "In", extraNs⟩] } }
      .ok {
        metadata := ownedMeta svc ns
        podSelector := { matchLabels := some (selectorLabels svc) }
        policyTypes := ["Ingress"]
        ingress := [{
          peers := [clients, metrics] ++ if extraNs.isEmpty then [] else [extra]
          ports := [⟨"TCP", 8000⟩] }] }

/-! ## Reconcile -/

/-- The environment variables a reconcile reads. -/
structure Environment where
  metricsNamespace : Option String
  networkPolicyEnabled : Option String
  extraIngressNamespaces : Option String

namespace Environment

variable (environment : Environment)

def metricsNs : String := environment.metricsNamespace.getD defaultMetricsNamespace

def policyEnabled : Bool := environment.networkPolicyEnabled ≠ some "false"

def extraNs : List String :=
  let names := (environment.extraIngressNamespaces.getD "").toList.splitOn ','
  ((names.map trim).filter fun name => !name.isEmpty).map String.ofList

end Environment

inductive Call where
  | applyDeployment (deployment : Deployment)
  | applyService (service : Service)
  | applyNetworkPolicy (policy : NetworkPolicy)
  | patchStatus (status : VllmServiceStatus)

/-- The calls of one reconcile; `readyReplicas` is what the server answers to
the apply of the Deployment. -/
def reconcileInner (environment : Environment) (readyReplicas : Option Int32) :
    Except Error (List Call) := do
  let desired ← buildDeployment svc
  let desiredService ← buildService svc
  let desiredPolicy ← buildNetworkPolicyWith svc environment.metricsNs environment.extraNs
  let (phase, message) := phaseFor svc.spec.replicas (readyReplicas.getD 0)
  .ok ([.applyDeployment desired, .applyService desiredService] ++
    (if environment.policyEnabled then [.applyNetworkPolicy desiredPolicy] else []) ++
    [.patchStatus ⟨phase, message⟩])

end VllmServiceController

end VllmColdstartOperator
