import EasyDK.InferServer.Engine
/-!
# A cache feeding engines

One executor: its cache, its engines, the packages waiting in the thread pool for a node, the
discard flags of the requests, the `RequestControl`s the sessions created with their item
counts, and every call made on them.  A step is one call of a component:

* a session's `Send`, which creates a `RequestControl` for a package whose items all carry it
  and pushes the package (`Session::Send` lives in `session.cpp`, not under `src/`; what it
  hands the cache is the only part of it modelled);
* `Discard` on a request, at any moment;
* `Start`, `Stop` and the batch timer of the cache;
* one turn of the executor's dispatch loop, `Pop` and then the package to the head node of an
  engine, whose `task_num_` it increments;
* one node of an engine running one waiting package, its processor returning any status and
  leaving any data, when what the node then does is defined;
* `Engine::Fork`.

`executor.cpp` is not under `src/`.  The spec says its dispatch loop picks the least loaded
engine; the model lets it pick any engine, so that what is proved holds whichever it picks.
The thread pool runs waiting packages in priority order; the model runs them in any order.
-/

namespace EasyDK
namespace InferServer

/-- A package waiting in the thread pool for node `node` of engine `engine`. -/
structure Task where
  engine : Nat
  node : Nat
  pack : Package
  deriving DecidableEq, Repr

/-- An executor's cache and engines, the packages in flight, the discarded requests, the
requests sent with their `data_num`, and every call made on their controls. -/
structure Pipeline where
  cache : Cache := {}
  engines : List Engine
  tasks : List Task := []
  discarded : List Ctrl := []
  requests : List (Ctrl × Nat) := []
  reports : List Report := []
  deriving DecidableEq, Repr

namespace Pipeline

/-- `--task_num_` or `++task_num_` of one engine. -/
def setTaskNum (f : Nat → Nat) (e : Nat) (engines : List Engine) : List Engine :=
  engines.modify (fun en => { en with taskNum := f en.taskNum }) e

/-- What the pipeline looks like once node work on task `i` ended as `o`: the task leaves the
pool, and a forwarded package comes back for the next node; the tail's done notifier
decrements its engine's `task_num_`. -/
def finish (w : Pipeline) (i : Nat) (t : Task) : NodeOutcome → Pipeline
  | .failed rs => { w with tasks := w.tasks.eraseIdx i, reports := w.reports ++ rs }
  | .forward k p => { w with tasks := w.tasks.eraseIdx i ++ [⟨t.engine, k, p⟩] }
  | .done rs =>
    { w with tasks := w.tasks.eraseIdx i, reports := w.reports ++ rs,
             engines := setTaskNum (· - 1) t.engine w.engines }

/-- Task `i` and the others. -/
theorem tasks_perm {tasks : List Task} {i : Nat} {t : Task} (ht : tasks[i]? = some t) :
    tasks.Perm (t :: tasks.eraseIdx i) := by
  obtain ⟨hi, rfl⟩ := List.getElem?_eq_some_iff.1 ht
  exact (List.perm_cons_erase (List.getElem_mem hi)).trans (.cons _ (List.erase_getElem hi))

@[simp] theorem finish_cache (w : Pipeline) (i : Nat) (t : Task) (o : NodeOutcome) :
    (w.finish i t o).cache = w.cache := by
  cases o <;> rfl

@[simp] theorem finish_requests (w : Pipeline) (i : Nat) (t : Task) (o : NodeOutcome) :
    (w.finish i t o).requests = w.requests := by
  cases o <;> rfl

end Pipeline

variable (cfg : CacheConfig) (next : Int → Int) (ok : Package → Prop)

/-- One call of a component of the pipeline.  `ok` restricts what sessions send. -/
inductive PStep : Pipeline → Pipeline → Prop
  | start (w : Pipeline) : PStep w { w with cache := CacheBase.start w.cache }
  | stop (w : Pipeline) : PStep w { w with cache := CacheBase.stop cfg w.cache }
  | timeout (w : Pipeline) : PStep w { w with cache := CacheBase.timeout cfg w.cache }
  | send (w : Pipeline) (ctrl : Ctrl) (pack : Package) (hfresh : ∀ n, (ctrl, n) ∉ w.requests)
      (hctrl : ∀ it ∈ pack.data, it.ctrl? = some ctrl) (hok : ok pack) :
      PStep w { w with cache := (CacheBase.push cfg w.cache pack).2,
                       requests := if (CacheBase.push cfg w.cache pack).1
                         then w.requests ++ [(ctrl, pack.dataNum)] else w.requests }
  | discard (w : Pipeline) (ctrl : Ctrl) : PStep w { w with discarded := w.discarded ++ [ctrl] }
  | dispatchNull {w : Pipeline} {c' : Cache} {r : List Report}
      (h : CacheBase.pop cfg (· ∈ w.discarded) w.cache = .null c' r) :
      PStep w { w with cache := c', reports := w.reports ++ r }
  | dispatch {w : Pipeline} {c' : Cache} {p : Package} {r : List Report} (e : Nat)
      (he : e < w.engines.length)
      (h : CacheBase.pop cfg (· ∈ w.discarded) w.cache = .pack p c' r) :
      PStep w { w with cache := c', reports := w.reports ++ r,
                       engines := Pipeline.setTaskNum (· + 1) e w.engines,
                       tasks := w.tasks ++ [⟨e, 0, p⟩] }
  | run {w : Pipeline} {i : Nat} {t : Task} {en : Engine} {node : TaskNode} {o : NodeOutcome}
      (ht : w.tasks[i]? = some t) (hen : w.engines[t.engine]? = some en)
      (hnode : en.nodes[t.node]? = some node) (s : Status) (data : List InferData)
      (ho : node.run next s { t.pack with data } = some o) :
      PStep w (w.finish i t o)
  | fork {w : Pipeline} {e : Nat} {en : Engine} (hen : w.engines[e]? = some en)
      (clone : Nat → Nat) : PStep w { w with engines := w.engines ++ [en.fork clone] }

/-- The states an executor with `engines` reaches. -/
inductive PReachable (engines : List Engine) : Pipeline → Prop
  | init : PReachable engines { engines }
  | step {w w' : Pipeline} :
      PReachable engines w → PStep cfg next ok w w' → PReachable engines w'

/-! ## What a request is owed -/

/-- The requests a list of descriptors names, in order. -/
def descCtrls (descs : List (Option TaskDesc)) : List Ctrl := descs.filterMap (·.map TaskDesc.ctrl)

/-- The descriptors a cache holds: those of the items a dynamic cache buffers and queues, and
a static cache's queued packages' own. -/
def Cache.descs (cfg : CacheConfig) (c : Cache) : List (Option TaskDesc) :=
  match cfg.strategy with
  | .dynamic => c.items.map InferData.desc
  | .static => c.cache.flatMap Package.descs

namespace Pipeline

/-- The descriptors still pending: in the cache, and in the packages in flight. -/
def pendingDescs (cfg : CacheConfig) (w : Pipeline) : List (Option TaskDesc) :=
  w.cache.descs cfg ++ w.tasks.flatMap (·.pack.descs)

/-- The requests named by the answers given and by the descriptors still pending. -/
def accounted (cfg : CacheConfig) (w : Pipeline) : List Ctrl :=
  w.reports.map Report.ctrl ++ descCtrls (w.pendingDescs cfg)

/-- Each request sent, as many times as its `data_num`. -/
def owed (w : Pipeline) : List Ctrl := w.requests.flatMap fun r => List.replicate r.2 r.1

end Pipeline

/-- A static cache of batch size 2 feeding one engine of one node. -/
theorem PReachable.sample_init :
    PReachable sampleStatic id (fun _ => True) [Engine.create [0]]
      { engines := [Engine.create [0]] } :=
  .init

/-- Request 3 sends a continuous package of `data_num` 3 and is discarded before `Pop`: the
static sweep answers it once, for its one item, and nothing of it is left. -/
theorem continuous_discard_answered_once :
    ∃ w, PReachable sampleStatic id (fun _ => True) [Engine.create [0]] w ∧
      w.requests = [(⟨3, 3⟩, 3)] ∧ (w.reports.map Report.ctrl).count ⟨3, 3⟩ = 1 ∧
      (descCtrls (w.pendingDescs sampleStatic)).count ⟨3, 3⟩ = 0 := by
  have h := ((PReachable.sample_init.step (.start _)).step
    (.send _ ⟨3, 3⟩ sampleContinuous (by simp) (by decide) trivial)).step
    (.discard _ ⟨3, 3⟩)
  exact ⟨_, h.step (.dispatchNull rfl), rfl, by decide, by decide⟩

/-- Request 1's first package fails at the only node: it leaves the pool, and the engine's
`task_num_` stays 1. -/
theorem failed_package_still_counted :
    ∃ w, PReachable sampleStatic id (fun _ => True) [Engine.create [0]] w ∧
      w.tasks = [] ∧ w.engines.map Engine.taskNum = [1] := by
  have h := ((PReachable.sample_init.step (.start _)).step
    (.send _ ⟨1, 1⟩ samplePack (by simp) (by decide) trivial)).step
    (.dispatch 0 (by decide) rfl)
  have h := h.step (.run (i := 0) (by rfl) (by rfl) (by rfl) .errorBackend [] (by rfl))
  exact ⟨_, h, rfl, rfl⟩

end InferServer
end EasyDK
