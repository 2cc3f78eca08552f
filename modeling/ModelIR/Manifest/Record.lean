import ModelIR.Cache.Layout
import ModelIR.Random
import ModelIR.Xml.Tree

/-!
# Records

What the manifests say of a model: one record in the list of models under test, and one for every
test in the list of references, with made-up figures of its use of memory.
-/

namespace ModelIR

open Xml

/-- The tests that references are kept for. -/
inductive TestKind where
  | createNetwork
  | inferWithStreams
  | inferRequest
deriving DecidableEq, Repr

namespace TestKind

/-- All tests, in the order of their records. -/
def all : List TestKind :=
  [createNetwork, inferWithStreams, inferRequest]

/-- The label of a test. -/
def label : TestKind → String
  | createNetwork => "create_exenetwork"
  | inferWithStreams => "inference_with_streams"
  | inferRequest => "infer_request_inference"

/-- The test with a label. -/
def ofLabel? (text : String) : Option TestKind :=
  all.find? (·.label = text)

end TestKind

/-- Figures of the use of memory. -/
structure Footprint where
  vmsize : Nat
  vmpeak : Nat
  vmrss : Nat
  vmhwm : Nat
deriving DecidableEq, Repr

namespace Footprint

/-- The greatest figure of virtual memory. -/
def maxVirtual : Nat := 1103949

/-- The greatest figure of resident memory. -/
def maxResident : Nat := 129329

/-- Figures at random. -/
def random : StateM WordSource Footprint := do
  let vmsize ← draw maxVirtual
  let vmpeak ← draw maxVirtual
  let vmrss ← draw maxResident
  let vmhwm ← draw maxResident
  return { vmsize, vmpeak, vmrss, vmhwm }

end Footprint

/-- The name of a record's element. -/
def recordName : String := "model"

/-- The device that references are kept for. -/
def referenceDevice : String := "CPU"

/-- An element of a record. -/
def recordElement (attributes : List (String × String)) : Element :=
  { tag := { name := recordName, attributes } }

/-- The record of a model under test. -/
structure ModelRecord where
  name : String
  precision : String
  framework : String
  path : String
  fullPath : String
deriving DecidableEq, Repr

namespace ModelRecord

/-- The record of a model. -/
def ofModel (model : Model) : ModelRecord where
  name := model.fileName
  precision := model.precision
  framework := model.framework
  path := model.path.toText
  fullPath := model.path.toText

/-- The element of a record. -/
def toElement (r : ModelRecord) : Element :=
  recordElement
    [("name", r.name), ("precision", r.precision), ("framework", r.framework), ("path", r.path),
      ("full_path", r.fullPath)]

end ModelRecord

/-- The record of a test of a model. -/
structure ReferenceRecord where
  path : String
  precision : String
  test : TestKind
  device : String
  memory : Footprint
deriving DecidableEq, Repr

namespace ReferenceRecord

/-- A record of one test. -/
def forTest (model : Model) (test : TestKind) : StateM WordSource ReferenceRecord := do
  let memory ← Footprint.random
  return {
    path := model.path.toText
    precision := model.precision
    test
    device := referenceDevice
    memory }

/-- The records of all tests. -/
def forAllTests (model : Model) : StateM WordSource (List ReferenceRecord) :=
  TestKind.all.mapM (forTest model)

/-- The element of a record. -/
def toElement (r : ReferenceRecord) : Element :=
  recordElement
    [("path", r.path), ("precision", r.precision), ("test", r.test.label), ("device", r.device),
      ("vmsize", r.memory.vmsize.repr), ("vmpeak", r.memory.vmpeak.repr),
      ("vmrss", r.memory.vmrss.repr), ("vmhwm", r.memory.vmhwm.repr)]

end ReferenceRecord

end ModelIR
