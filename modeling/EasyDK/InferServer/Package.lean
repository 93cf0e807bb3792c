import Mathlib.Data.List.Basic
/-!
# Packages, descriptors and request controls

The data the inference server's core moves around.  An `InferData` is one client item: an
opaque payload and a shared pointer to its `TaskDesc`, which names the `RequestControl` the
item belongs to and the item's position in its request.  A `Package` is a batch of items with
a parallel vector of descriptors, a priority and a logical item count `data_num`.

Ownership of the descriptors migrates once: while a package waits in a cache its items hold
them, and `PreparePackage` at `CacheBase::Pop` moves (dynamic) or copies (static) them into the
package's `descs`.  Pointers are options, so that the null pointers the code can create are
values of the model and "no null pointer is dereferenced" is a statement about them.

A `RequestControl*` is modelled by the identity of the object together with the request id it
was created with.  Its mutable part, the discard flag, belongs to the state of whoever runs the
cache; the calls made on it are recorded as `Report`s.
-/

namespace EasyDK
namespace InferServer

/-- `Status`, the result of a processor and of a request. -/
inductive Status
  | success
  | errorBackend
  | wrongType
  | timeout
  | invalidParam
  deriving DecidableEq, Repr

/-- A `RequestControl*`: which control object, and `RequestId()`, fixed at its creation. -/
structure Ctrl where
  id : Nat
  requestId : Int
  deriving DecidableEq, Repr

/-- `TaskDesc`: the request an item belongs to and its index in that request. -/
structure TaskDesc where
  ctrl : Ctrl
  index : Nat
  deriving DecidableEq, Repr

/-- `InferData`: an opaque payload and its descriptor, null once the item has been scheduled. -/
structure InferData where
  payload : Nat
  desc : Option TaskDesc
  deriving DecidableEq, Repr

/-- `Package`.  `data_num` may exceed `data.size()` for a continuous input, a single payload
standing for several logical items. -/
structure Package where
  data : List InferData
  descs : List (Option TaskDesc) := []
  priority : Int
  dataNum : Nat
  deriving DecidableEq, Repr

/-- A call made on a `RequestControl`: `ProcessDone` from the tail of an engine with the item
it pairs with the descriptor, or `ProcessFailed` from a failing node or a discard sweep. -/
inductive Report
  | processDone (ctrl : Ctrl) (status : Status) (output : Option InferData) (index : Nat)
  | processFailed (ctrl : Ctrl) (status : Status)
  deriving DecidableEq, Repr

/-- The control object a call is made on. -/
def Report.ctrl : Report → Ctrl
  | .processDone c .. => c
  | .processFailed c _ => c

/-- `it->desc->ctrl`, when the descriptor is there. -/
def InferData.ctrl? (it : InferData) : Option Ctrl := it.desc.map TaskDesc.ctrl

/-- `it->desc->ctrl->IsDiscarded()` under the discard flags `disc`.  A null descriptor would be
dereferenced by the code; every cache keeps its items' descriptors (`Invariants`), and the model
reads such an item as live. -/
def InferData.discarded (disc : Ctrl → Bool) (it : InferData) : Bool :=
  match it.desc with
  | some d => disc d.ctrl
  | none => false

/-- The item once `PreparePackage` has reset its descriptor. -/
def InferData.erase (it : InferData) : InferData := { it with desc := none }

/-- `data.at(0)->desc->ctrl->RequestId()`, read when a package is created.  The model reads 0
for an empty batch or a null descriptor, which no cache creates. -/
def firstRequestId : List InferData → Int
  | ⟨_, some d⟩ :: _ => d.ctrl.requestId
  | _ => 0

@[simp] theorem InferData.erase_desc (it : InferData) : it.erase.desc = none := rfl

@[simp] theorem InferData.erase_payload (it : InferData) : it.erase.payload = it.payload := rfl

@[simp] theorem InferData.discarded_erase (disc : Ctrl → Bool) (it : InferData) :
    it.erase.discarded disc = false := rfl

@[simp] theorem InferData.ctrl?_erase (it : InferData) : it.erase.ctrl? = none := rfl

/-- An item is discarded exactly when it has a control and `disc` says so of it. -/
theorem InferData.discarded_eq_any (disc : Ctrl → Bool) (it : InferData) :
    it.discarded disc = it.ctrl?.any disc := by
  obtain ⟨_, _ | d⟩ := it <;> rfl

theorem InferData.discarded_of_ctrl? {disc : Ctrl → Bool} {it : InferData} {c : Ctrl}
    (h : it.ctrl? = some c) : it.discarded disc = disc c := by
  obtain ⟨_, _ | d⟩ := it
  · cases h
  · simp only [InferData.ctrl?, Option.map_some', Option.some.injEq] at h
    simp [InferData.discarded, h]

/-- `firstRequestId` reads the control of the first item. -/
theorem firstRequestId_cons {it : InferData} {c : Ctrl} (h : it.ctrl? = some c)
    (rest : List InferData) : firstRequestId (it :: rest) = c.requestId := by
  obtain ⟨_, _ | d⟩ := it
  · cases h
  · simp only [InferData.ctrl?, Option.map_some', Option.some.injEq] at h
    simp [firstRequestId, h]

end InferServer
end EasyDK
