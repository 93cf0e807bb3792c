import EasyDK.InferServer.Package
/-!
# The batching caches

`cache.h`: a bounded producer/consumer queue of packages with two batching strategies.

* `CacheDynamic` sends every pushed item through a `Batcher`, whose emitted batches become
  packages; its discard sweep walks the whole queue, keeps the live items and packs them again.
* `CacheStatic` splits every pushed package into packages of at most `batch_size` items, except
  a continuous package (one payload, `data_num ≠ 1`), which it publishes whole with `data_num`
  fresh descriptors; its sweep drops the packages whose first item is discarded.

`CacheBase::Pop` blocks on an empty running cache, sweeps when the head package holds a
discarded item, and hands the front package over after `PreparePackage`.

The functions follow the code statement by statement.  The `Batcher` lives in
`util/batcher.h`, which is not under `src/`; it is modelled from the spec.  `Priority::Get` and
the priority of a freshly constructed `Package` come from headers that are not under `src/`
either, and are parameters of the cache.
-/

namespace EasyDK
namespace InferServer

/-! ## Batcher -/

namespace Batcher

variable {α : Type}

/-- Modelled from the spec: `Batcher::AddItem` of `util/batcher.h`.  The item is appended, and
once `batch_size` items are buffered they are emitted to the sink as one batch. -/
def addItem (batchSize : Nat) (buffer : List α) (x : α) : List α × Option (List α) :=
  if batchSize ≤ (buffer ++ [x]).length then ([], some (buffer ++ [x])) else (buffer ++ [x], none)

/-- Modelled from the spec: `Batcher::Emit` and the batch timer, which flush a partial batch.
With nothing buffered nothing is emitted. -/
def emit : List α → List α × Option (List α)
  | [] => ([], none)
  | x :: xs => ([], some (x :: xs))

/-- What a batcher step buffers and emits, read back in order, is the old buffer and the item. -/
theorem addItem_contents (b : Nat) (buffer : List α) (x : α) :
    ((addItem b buffer x).2.getD []) ++ (addItem b buffer x).1 = buffer ++ [x] := by
  unfold addItem; split <;> simp

theorem emit_contents (buffer : List α) :
    ((emit buffer).2.getD []) ++ (emit buffer).1 = buffer := by
  cases buffer <;> simp [emit]

/-- A batch is never empty. -/
theorem addItem_emitted_ne_nil {b : Nat} {buffer : List α} {x : α} {batch : List α}
    (h : (addItem b buffer x).2 = some batch) : batch ≠ [] := by
  unfold addItem at h
  split at h
  · cases h; simp
  · cases h

theorem emit_emitted_ne_nil {buffer batch : List α} (h : (emit buffer).2 = some batch) :
    batch ≠ [] := by
  cases buffer
  · cases h
  · cases h; simp

/-- With `batch_size ≥ 1` the buffer stays below `batch_size`, so no batch exceeds it. -/
theorem addItem_buffer_lt {b : Nat} (hb : 1 ≤ b) {buffer : List α} (hlt : buffer.length < b)
    (x : α) : (addItem b buffer x).1.length < b := by
  unfold addItem; split <;> simp_all; omega

theorem addItem_emitted_le {b : Nat} {buffer : List α} (hlt : buffer.length < b) {x : α}
    {batch : List α} (h : (addItem b buffer x).2 = some batch) : batch.length ≤ b := by
  unfold addItem at h
  split at h
  · cases h; simp; omega
  · cases h

@[simp] theorem emit_buffer (buffer : List α) : (emit buffer).1 = [] := by
  cases buffer <;> rfl

theorem emit_emitted_eq {buffer batch : List α} (h : (emit buffer).2 = some batch) :
    batch = buffer := by
  cases buffer <;> simp_all [emit]

end Batcher

/-! ## Cache state -/

/-- `BatchStrategy` of a cache, `DYNAMIC` or `STATIC`: the two strategies `cache.h` implements. -/
inductive BatchStrategy
  | dynamic
  | static
  deriving DecidableEq, Repr

/-- The constructor arguments of a cache: its strategy, `batch_size_`, `priority_.Get`, and
the priority a `new Package` carries before anyone sets it.  `cache_capacity_` only bounds
`WaitIfFull`, which producers call before `Push`. -/
structure CacheConfig where
  strategy : BatchStrategy
  batchSize : UInt32
  getPriority : Int → Int
  freshPriority : Int

/-- The mutable state of a cache: `running_`, the dynamic cache's `batcher_` buffer and
`cache_`. -/
structure Cache where
  running : Bool := false
  batcher : List InferData := []
  cache : List Package := []
  deriving DecidableEq, Repr

/-- Every item a cache holds, queued first, then buffered, in order. -/
def Cache.items (c : Cache) : List InferData := c.cache.flatMap Package.data ++ c.batcher

/-! ## CacheBase helpers -/

namespace CacheBase

/-- `MoveDescToPackage`: the items' descriptors move into `descs`, leaving the items without. -/
def moveDescToPackage (pack : Package) : Package :=
  { pack with descs := pack.descs ++ pack.data.map InferData.desc,
              data := pack.data.map InferData.erase }

/-- `Pop`'s discard check: some item of the package belongs to a discarded request. -/
def hasDiscarded (disc : Ctrl → Bool) (pack : Package) : Bool := pack.data.any (·.discarded disc)

end CacheBase

/-- The `ProcessFailed(SUCCESS)` a sweep sends for an item it drops. -/
def sweepReport (it : InferData) : Option Report := it.ctrl?.map (.processFailed · .success)

/-! ## CacheDynamic -/

namespace CacheDynamic

variable (cfg : CacheConfig)

/-- The sink the constructor hands the batcher: one package per emitted batch, its priority
`GetPriority().Get(-RequestId())` of the first item's request. -/
def sink (data : List InferData) : Package :=
  { data, priority := cfg.getPriority (-firstRequestId data), dataNum := data.length }

/-- The batcher's new buffer, and the package of its emitted batch appended to `cache_`. -/
def publish (c : Cache) (r : List InferData × Option (List InferData)) : Cache :=
  { c with batcher := r.1, cache := c.cache ++ (r.2.map (sink cfg)).toList }

/-- `Enqueue`: each item goes to `Batcher::AddItem`. -/
def enqueue : Cache → List InferData → Cache
  | c, [] => c
  | c, it :: rest => enqueue (publish cfg c (Batcher.addItem cfg.batchSize.toNat c.batcher it)) rest

/-- The batch timer, and `Emit` at `Stop`: the partial batch goes to the sink. -/
def flush (c : Cache) : Cache := publish cfg c (Batcher.emit c.batcher)

/-- The second loop of `ClearDiscard`: the live items are packed again in order, a package
published once it reaches `BatchSize()` or the items run out.  The packages are fresh, and
nothing sets their priority. -/
def rebatch (pack : List InferData) : List InferData → List Package
  | [] => []
  | it :: rest =>
    if cfg.batchSize.toNat ≤ (pack ++ [it]).length ∨ rest = [] then
      { data := pack ++ [it], priority := cfg.freshPriority, dataNum := (pack ++ [it]).length } ::
        rebatch [] rest
    else rebatch (pack ++ [it]) rest

/-- `ClearDiscard`: the new queue, and the `ProcessFailed(SUCCESS)` sent for each discarded
item. -/
def clearDiscard (disc : Ctrl → Bool) (queue : List Package) : List Package × List Report :=
  let items := queue.flatMap Package.data
  (rebatch cfg [] (items.filter fun it => !it.discarded disc),
    (items.filter (·.discarded disc)).filterMap sweepReport)

/-- `PreparePackage`. -/
def preparePackage (pack : Package) : Package := CacheBase.moveDescToPackage pack

end CacheDynamic

/-! ## CacheStatic -/

namespace CacheStatic

variable (cfg : CacheConfig)

/-- `pack->data[0]->desc->ctrl->IsDiscarded()`, the only item `ClearDiscard` looks at.  The
model reads an empty package, which the static cache never holds, as live. -/
def headDiscarded (disc : Ctrl → Bool) (pack : Package) : Bool :=
  match pack.data with
  | it :: _ => it.discarded disc
  | [] => false

/-- `ClearDiscard`, which does not rebatch: the packages whose first item is live stay in
order; every item of a dropped package is reported `ProcessFailed(SUCCESS)`. -/
def clearDiscard (disc : Ctrl → Bool) (queue : List Package) : List Package × List Report :=
  (queue.filter fun p => !headDiscarded disc p,
    (queue.filter (headDiscarded disc)).flatMap fun p => p.data.filterMap sweepReport)

/-- `CopyDescToPackageContinuous`: `data_num` fresh descriptors on the first item's request,
with indices `0 .. data_num - 1`. -/
def copyDescToPackageContinuous (pack : Package) : Package :=
  { pack with descs := pack.descs ++ (List.range pack.dataNum).map fun i =>
      (pack.data.head?.bind InferData.ctrl?).map fun c => ⟨c, i⟩ }

/-- `CopyDescToPackage`: the items' descriptors, shared with the package. -/
def copyDescToPackage (pack : Package) : Package :=
  { pack with descs := pack.descs ++ pack.data.map InferData.desc }

/-- The package `Enqueue` publishes once it holds `data` (`batch_idx` items) out of an input of
`data_size` items and `data_num` logical items. -/
def closePackage (dataSize inDataNum : Nat) (data : List InferData) (batchIdx : Nat) : Package :=
  let pack : Package :=
    { data, priority := cfg.getPriority (-firstRequestId data),
      dataNum := if dataSize = 1 then inDataNum else batchIdx }
  if dataSize = 1 ∧ inDataNum ≠ 1 then copyDescToPackageContinuous pack
  else copyDescToPackage pack

/-- The loop of `Enqueue` from item `idx` on, `pack` holding the `batch_idx` items taken since
the last package was published.  `BatchSize() - 1` is computed in `uint32_t`. -/
def split (dataSize inDataNum : Nat) :
    Nat → List InferData → Nat → List InferData → List Package
  | _, _, _, [] => []
  | idx, pack, batchIdx, it :: rest =>
    if (cfg.batchSize - 1).toNat < batchIdx + 1 ∨ idx = dataSize - 1 then
      closePackage cfg dataSize inDataNum (pack ++ [it]) (batchIdx + 1) ::
        split dataSize inDataNum (idx + 1) [] 0 rest
    else split dataSize inDataNum (idx + 1) (pack ++ [it]) (batchIdx + 1) rest

/-- `Enqueue`: the input's packages are appended to `cache_`. -/
def enqueue (c : Cache) (input : Package) : Cache :=
  { c with cache := c.cache ++ split cfg input.data.length input.dataNum 0 [] 0 input.data }

/-- `PreparePackage`: the items drop their descriptors, which `descs` already holds. -/
def preparePackage (pack : Package) : Package := { pack with data := pack.data.map InferData.erase }

end CacheStatic

/-! ## CacheBase -/

namespace CacheBase

variable (cfg : CacheConfig)

/-- `Enqueue`, dispatched on the strategy. -/
def enqueue (c : Cache) (pack : Package) : Cache :=
  match cfg.strategy with
  | .dynamic => CacheDynamic.enqueue cfg c pack.data
  | .static => CacheStatic.enqueue cfg c pack

/-- `ClearDiscard`, dispatched on the strategy. -/
def clearDiscard (disc : Ctrl → Bool) (queue : List Package) : List Package × List Report :=
  match cfg.strategy with
  | .dynamic => CacheDynamic.clearDiscard cfg disc queue
  | .static => CacheStatic.clearDiscard disc queue

/-- `PreparePackage`, dispatched on the strategy. -/
def preparePackage (pack : Package) : Package :=
  match cfg.strategy with
  | .dynamic => CacheDynamic.preparePackage pack
  | .static => CacheStatic.preparePackage pack

/-- `Start`. -/
def start (c : Cache) : Cache := { c with running := true }

/-- `Stop`; the dynamic cache then flushes its batcher. -/
def stop (c : Cache) : Cache :=
  match cfg.strategy with
  | .dynamic => CacheDynamic.flush cfg { c with running := false }
  | .static => { c with running := false }

/-- The batch timer firing; only the dynamic cache has one. -/
def timeout (c : Cache) : Cache :=
  match cfg.strategy with
  | .dynamic => CacheDynamic.flush cfg c
  | .static => c

/-- `Push`: refused once the cache is stopped. -/
def push (c : Cache) (pack : Package) : Bool × Cache :=
  if c.running then (true, enqueue cfg c pack) else (false, c)

theorem push_running {c : Cache} (h : c.running = true) (pack : Package) :
    push cfg c pack = (true, enqueue cfg c pack) := by
  simp [push, h]

theorem push_stopped {c : Cache} (h : c.running = false) (pack : Package) :
    push cfg c pack = (false, c) := by
  simp [push, h]

/-- What a call of `Pop` does from a state: it blocks, or it returns null or a package, with
the new state and the reports its sweep sent. -/
inductive PopOutcome
  | waits
  | null (c : Cache) (reports : List Report)
  | pack (p : Package) (c : Cache) (reports : List Report)

/-- `Pop`.  On an empty running cache it waits for a push or a stop; the call then completes
in the state where its condition holds, which is another call of `pop`. -/
def pop (disc : Ctrl → Bool) (c : Cache) : PopOutcome :=
  match c.cache with
  | [] => if c.running then .waits else .null c []
  | head :: rest =>
    if hasDiscarded disc head then
      match clearDiscard cfg disc c.cache with
      | ([], reports) => .null { c with cache := [] } reports
      | (p :: rest', reports) => .pack (preparePackage cfg p) { c with cache := rest' } reports
    else .pack (preparePackage cfg head) { c with cache := rest } []

end CacheBase

end InferServer
end EasyDK
