import Mathlib.Data.List.Basic
/-!
# Executors of an InferServer

`infer_server.cpp`.  `CreateSession` asks `CreateExecutor` for the executor of its descriptor's
signature, the model's path and function name and the type names of its pre- and postprocessor
joined by `_`, and links a new session to it; `DestroySession` unlinks the session and, once an
executor has no session left, erases it from `executor_map_` and deletes it.  A new executor
grows the thread pool by three threads per engine, up to `max_thread_num`; a deleted one shrinks
it by two per engine when that many threads are idle.

Calls run concurrently.  Each section under `executor_map_mutex_` or `tp_mutex_` is one atomic
step, and so are `Executor::Link` and `delete executor`, which run outside both locks: a call in
progress is a `Call`, the point it has reached, and `ServerStep` lets any call take its next
step.  Executors and sessions are named by their addresses, which are never reused.

Two things go wrong.  The executor `CreateExecutor` returned may be erased and deleted by a
`DestroySession` of its last session before the `CreateSession` that got it links to it
(`link_after_destroy`).  And two descriptors whose strings split at different underscores share
one executor (`executor_shared_across_signatures`); when no part but the last holds `_`, the
name determines the signature (`executorName_inj`).

`Session`, `Executor`, `Postprocessor`, the thread pool and the width of `engine_num` are
declared outside `src/`: a session is its descriptor and executor, an executor its name, its
engine count, its linked sessions and whether it was deleted, the pool its size, and engine
counts are unbounded.  The `TypeName()` of a default `Postprocessor`, `max_thread_num` and the
pool's `IdleNumber()` at each step are parameters.  `new Executor` throwing ends a
`CreateSession` with null and no other effect.
-/

namespace EasyDK
namespace InferServer

/-- What `CreateSession` reads of a `SessionDesc`: the model's `Path()` and `FunctionName()`,
the `TypeName()` of the pre- and postprocessor, a null pointer being `none`, and
`engine_num`. -/
structure SessionDesc where
  model : Option (String × String)
  preproc : Option String
  postproc : Option String
  engineNum : Nat
  deriving DecidableEq, Repr

/-- What a server's steps depend on that `infer_server.cpp` does not define: the `TypeName()` of
a default `Postprocessor`, and `max_thread_num`, three threads per CPU core. -/
structure ServerConfig where
  defaultPost : String
  maxThreads : Nat

/-- The executor name `CreateExecutor` writes into its `ostringstream`. -/
def executorName (path funcName preproc postproc : String) : String :=
  path ++ "_" ++ funcName ++ "_" ++ preproc ++ "_" ++ postproc

/-- The signature `CreateSession` passes on: it aborts on a null model or preprocessor
(`CHECK`), and gives a null postprocessor a default `Postprocessor`, of type name
`defaultPost`. -/
def SessionDesc.signature? (defaultPost : String) (d : SessionDesc) :
    Option (String × String × String × String) :=
  match d.model, d.preproc with
  | some (path, funcName), some pre => some (path, funcName, pre, d.postproc.getD defaultPost)
  | _, _ => none

/-- The name of the executor a descriptor asks for. -/
def SessionDesc.executorName? (defaultPost : String) (d : SessionDesc) : Option String :=
  (d.signature? defaultPost).map fun (path, funcName, pre, post) =>
    executorName path funcName pre post

/-- An `Executor` as the server sees it: `GetName()`, `GetEngineNum()`, the sessions linked to
it, and whether it has been deleted. -/
structure Executor where
  name : String
  engineNum : Nat
  sessions : List Nat := []
  deleted : Bool := false
  deriving DecidableEq, Repr

/-- The point a call on the server has reached, between two of its atomic steps. -/
inductive Call
  /-- `CreateSession`, before `CreateExecutor`. -/
  | createSession (desc : SessionDesc)
  /-- `CreateExecutor` once it registered a new executor, before it resizes the pool. -/
  | growPool (desc : SessionDesc) (executor : Nat)
  /-- `CreateSession` holding the executor `CreateExecutor` returned, before `Link`. -/
  | link (desc : SessionDesc) (executor : Nat)
  /-- `DestroySession`, before `ExistExecutor`. -/
  | destroySession (session : Nat)
  /-- `DestroySession` once `ExistExecutor` said yes, before `CheckAndDestroyExecutor`. -/
  | checkAndDestroy (session executor : Nat)
  /-- `CheckAndDestroyExecutor` after its erase, before `delete executor`. -/
  | deleteExecutor (executor : Nat)
  /-- `CheckAndDestroyExecutor` after `delete executor`, holding `th_num`, before it resizes
  the pool. -/
  | shrinkPool (thNum : Nat)
  deriving DecidableEq, Repr

/-- An `InferServer`: `executor_map_`; every executor and every session ever made, by address,
a session with the descriptor it was created from and its executor; the sessions its users
hold; the size of the thread pool; and the calls in progress. -/
structure Server where
  executorMap : List (String × Nat) := []
  executors : List Executor := []
  sessions : List (SessionDesc × Nat) := []
  held : List Nat := []
  threads : Nat := 0
  calls : List Call := []
  deriving DecidableEq, Repr

namespace Server

/-- `executor_map_.count(name)`. -/
def hasName (w : Server) (name : String) : Bool := (w.executorMap.lookup name).isSome

/-- `CreateExecutor`'s section under `executor_map_mutex_`: the executor registered under the
name, or a new one of `engineNum` engines, registered under it. -/
def createExecutor (w : Server) (name : String) (engineNum : Nat) : Nat × Server :=
  match w.executorMap.lookup name with
  | some e => (e, w)
  | none =>
    (w.executors.length, { w with executors := w.executors ++ [{ name, engineNum }],
                                  executorMap := w.executorMap ++ [(name, w.executors.length)] })

/-- `CreateExecutor`'s section under `tp_mutex_`: three more threads per engine, up to
`max_thread_num`, unless the pool already has that many. -/
def growThreads (maxThreads engineNum threads : Nat) : Nat :=
  if threads < maxThreads then min (threads + 3 * engineNum) maxThreads else threads

/-- Modelled from the spec: `Executor::Link` lives in `executor.cpp`, outside `src/`, and is
taken to add the session to the executor's sessions, as the spec's `Link(session)` says.
`new Session` over executor `e`, then `executor->Link(session)`; the session goes to the
user. -/
def link (w : Server) (desc : SessionDesc) (e : Nat) : Server :=
  { w with sessions := w.sessions ++ [(desc, e)], held := w.held ++ [w.sessions.length],
           executors := w.executors.modify
             (fun ex => { ex with sessions := ex.sessions ++ [w.sessions.length] }) e }

/-- `ExistExecutor(executor)`: its name is in the map. -/
def existExecutor (w : Server) (e : Nat) : Bool :=
  match w.executors[e]? with
  | some ex => w.hasName ex.name
  | none => false

/-- Modelled from the spec: `Executor::Unlink` lives in `executor.cpp`, outside `src/`, and is
taken to remove the session from the executor's sessions, as the spec's `Unlink(session)` says,
so that `GetSessionNum()` counts the sessions left. -/
def unlink (w : Server) (s e : Nat) : Server :=
  { w with
    executors := w.executors.modify (fun ex => { ex with sessions := ex.sessions.erase s }) e }

/-- `CheckAndDestroyExecutor`'s section under `executor_map_mutex_`: `Unlink` and
`delete session`; with no session left, the executor's name leaves the map and the executor is
to be deleted (`true`).  A name not in the map fails the `CHECK`, which aborts (`none`). -/
def checkAndDestroy (w : Server) (s e : Nat) : Option (Server × Bool) :=
  let w := w.unlink s e
  match w.executors[e]? with
  | none => none
  | some ex =>
    if ex.sessions = [] then
      if w.hasName ex.name then
        some ({ w with executorMap := w.executorMap.filter (·.1 ≠ ex.name) }, true)
      else none
    else some (w, false)

/-- `th_num`, two threads per engine of the executor, read just before `delete executor`. -/
def thNum (w : Server) (e : Nat) : Nat := (w.executors[e]?.map fun ex => 2 * ex.engineNum).getD 0

/-- `delete executor`. -/
def deleteExecutor (w : Server) (e : Nat) : Server :=
  { w with executors := w.executors.modify (fun ex => { ex with deleted := true }) e }

/-- `CheckAndDestroyExecutor`'s section under `tp_mutex_`: `th_num` threads fewer, when the pool
has more than that many idle. -/
def shrinkThreads (idle thNum threads : Nat) : Nat :=
  if thNum < idle then threads - thNum else threads

/-- The next atomic step of call `c`, which leaves the calls in progress and comes back at its
next point; `none` when the step aborts the process.  `idle` is the pool's `IdleNumber()`. -/
def advance (cfg : ServerConfig) (idle : Nat) (w : Server) (c : Call) : Option Server :=
  let w := { w with calls := w.calls.erase c }
  match c with
  | .createSession desc => (desc.executorName? cfg.defaultPost).map fun name =>
    let (e, w') := w.createExecutor name desc.engineNum
    { w' with calls := w'.calls ++
      [if w.hasName name then .link desc e else .growPool desc e] }
  | .growPool desc e =>
    some { w with threads := growThreads cfg.maxThreads desc.engineNum w.threads,
                  calls := w.calls ++ [.link desc e] }
  | .link desc e => some (w.link desc e)
  | .destroySession s => w.sessions[s]?.map fun (_, e) =>
    if w.existExecutor e then { w with calls := w.calls ++ [.checkAndDestroy s e] } else w
  | .checkAndDestroy s e => (w.checkAndDestroy s e).map fun (w, last) =>
    if last then { w with calls := w.calls ++ [.deleteExecutor e] } else w
  | .deleteExecutor e =>
    some { w.deleteExecutor e with calls := w.calls ++ [.shrinkPool (w.thNum e)] }
  | .shrinkPool th => some { w with threads := shrinkThreads idle th w.threads }

end Server

/-- One step of a server: a user calls `CreateSession`, or `DestroySession` on a session it
holds; a call in progress takes its next step, the pool having `idle` of its threads idle; or
`new Executor` throws, and the `CreateSession` about to register it returns null. -/
inductive ServerStep (cfg : ServerConfig) : Server → Server → Prop
  | createSession (w : Server) (desc : SessionDesc) :
      ServerStep cfg w { w with calls := w.calls ++ [.createSession desc] }
  | destroySession {w : Server} {s : Nat} (hs : s ∈ w.held) :
      ServerStep cfg w { w with held := w.held.erase s, calls := w.calls ++ [.destroySession s] }
  | advance {w w' : Server} {c : Call} (hc : c ∈ w.calls) (idle : Nat)
      (hidle : idle ≤ w.threads) (h : w.advance cfg idle c = some w') : ServerStep cfg w w'
  | executorFails {w : Server} {desc : SessionDesc} {name : String}
      (hc : .createSession desc ∈ w.calls)
      (hname : desc.executorName? cfg.defaultPost = some name)
      (hnew : w.hasName name = false) :
      ServerStep cfg w { w with calls := w.calls.erase (.createSession desc) }

/-- The states a server reaches from its construction, with a pool of `threads` threads. -/
inductive ServerReachable (cfg : ServerConfig) : Server → Prop
  | init (threads : Nat) : ServerReachable cfg { threads }
  | step {w w' : Server} : ServerReachable cfg w → ServerStep cfg w w' → ServerReachable cfg w'

namespace ServerReachable

variable {cfg : ServerConfig} {w w' : Server}

theorem createSession (h : ServerReachable cfg w) (desc : SessionDesc) :
    ServerReachable cfg { w with calls := w.calls ++ [.createSession desc] } :=
  h.step (.createSession w desc)

theorem destroySession (h : ServerReachable cfg w) {s : Nat} (hs : s ∈ w.held) :
    ServerReachable cfg
      { w with held := w.held.erase s, calls := w.calls ++ [.destroySession s] } :=
  h.step (.destroySession hs)

/-- A step of a call in progress that does not read the pool's idle threads. -/
theorem advance (h : ServerReachable cfg w) {c : Call} (hc : c ∈ w.calls)
    (h' : w.advance cfg 0 c = some w') : ServerReachable cfg w' :=
  h.step (.advance hc 0 (Nat.zero_le _) h')

end ServerReachable

/-! ## A link to a deleted executor -/

/-- A server with no default postprocessor type name and at most 12 threads. -/
def sampleServer : ServerConfig := { defaultPost := "", maxThreads := 12 }

/-- A descriptor with every part set, and one engine. -/
def sampleDesc : SessionDesc := ⟨some ("resnet", "subnet0"), some "Pre", some "Post", 1⟩

/-- A session of `sampleDesc` is open.  A second `CreateSession` of the same descriptor gets its
executor from `CreateExecutor`; a `DestroySession` of the first session then unlinks it, erases
the executor and deletes it, all before the second `CreateSession` calls `Link`. -/
theorem link_after_destroy :
    ∃ w, ServerReachable sampleServer w ∧ Call.link sampleDesc 0 ∈ w.calls ∧
      w.hasName "resnet_subnet0_Pre_Post" = false ∧
      w.executors[0]? = some { name := "resnet_subnet0_Pre_Post", engineNum := 1, deleted := true } := by
  have h := ((((@ServerReachable.init sampleServer 0).createSession sampleDesc).advance
    (c := .createSession sampleDesc) (by decide) rfl).advance (c := .growPool sampleDesc 0)
    (by decide) rfl).advance (c := .link sampleDesc 0) (by decide) rfl
  have h := ((h.createSession sampleDesc).advance (c := .createSession sampleDesc) (by decide)
    rfl).destroySession (s := 0) (by decide)
  have h := ((h.advance (c := .destroySession 0) (by decide) rfl).advance
    (c := .checkAndDestroy 0 0) (by decide) rfl).advance (c := .deleteExecutor 0) (by decide) rfl
  exact ⟨_, h, by decide, by decide, by decide⟩

/-! ## Executor names -/


/-- A separator found in neither prefix splits both lists at the same place. -/
theorem append_cons_eq_iff {α : Type} {x : α} :
    ∀ {l₁ l₂ r₁ r₂ : List α}, x ∉ l₁ → x ∉ l₂ →
    (l₁ ++ x :: r₁ = l₂ ++ x :: r₂ ↔ l₁ = l₂ ∧ r₁ = r₂)
  | [], [], _, _, _, _ => by simp
  | [], y :: l₂, _, _, _, h₂ => by
    simp only [List.nil_append, List.cons_append, List.cons.injEq, List.nil_eq, reduceCtorEq,
      false_and, iff_false, not_and]
    rintro rfl; exact absurd (List.mem_cons_self _ _) h₂
  | y :: l₁, [], _, _, h₁, _ => by
    simp only [List.nil_append, List.cons_append, List.cons.injEq, reduceCtorEq, false_and,
      iff_false, not_and]
    rintro rfl; exact absurd (List.mem_cons_self _ _) h₁
  | y :: l₁, z :: l₂, _, _, h₁, h₂ => by
    simp only [List.cons_append, List.cons.injEq, and_assoc,
      append_cons_eq_iff (List.not_mem_of_not_mem_cons h₁) (List.not_mem_of_not_mem_cons h₂)]

/-- Names of signatures whose path, function name and preprocessor type name hold no `_` are
equal exactly when the signatures are. -/
theorem executorName_inj {p₁ f₁ a₁ b₁ p₂ f₂ a₂ b₂ : String}
    (h₁ : '_' ∉ p₁.data ∧ '_' ∉ f₁.data ∧ '_' ∉ a₁.data)
    (h₂ : '_' ∉ p₂.data ∧ '_' ∉ f₂.data ∧ '_' ∉ a₂.data) :
    executorName p₁ f₁ a₁ b₁ = executorName p₂ f₂ a₂ b₂ ↔
      p₁ = p₂ ∧ f₁ = f₂ ∧ a₁ = a₂ ∧ b₁ = b₂ := by
  have hsep : "_".data = ['_'] := rfl
  simp only [executorName, String.ext_iff, String.data_append, hsep, List.append_assoc,
    List.cons_append, List.nil_append, append_cons_eq_iff h₁.1 h₂.1,
    append_cons_eq_iff h₁.2.1 h₂.2.1, append_cons_eq_iff h₁.2.2 h₂.2.2]

/-- `executorName_inj` on two signatures that differ in their model. -/
theorem executorName_inj_sample :
    ('_' ∉ "resnet".data ∧ '_' ∉ "subnet0".data ∧ '_' ∉ "Pre".data) ∧
      ('_' ∉ "vgg".data ∧ '_' ∉ "subnet0".data ∧ '_' ∉ "Pre".data) ∧
      (executorName "resnet" "subnet0" "Pre" "Post" = executorName "vgg" "subnet0" "Pre" "Post" ↔
        "resnet" = "vgg" ∧ "subnet0" = "subnet0" ∧ "Pre" = "Pre" ∧ "Post" = "Post") :=
  ⟨by decide, by decide, executorName_inj (by decide) (by decide)⟩

/-- Model `a_b` with function `c`, and model `a` with function `b_c`. -/
def sampleSplitDescs : SessionDesc × SessionDesc :=
  (⟨some ("a_b", "c"), some "p", some "q", 1⟩, ⟨some ("a", "b_c"), some "p", some "q", 1⟩)

/-- The two descriptors of `sampleSplitDescs` differ in their signatures, yet their sessions
share one executor. -/
theorem executor_shared_across_signatures :
    ∃ w, ServerReachable sampleServer w ∧
      w.sessions = [(sampleSplitDescs.1, 0), (sampleSplitDescs.2, 0)] ∧
      w.executors = [{ name := "a_b_c_p_q", engineNum := 1, sessions := [0, 1] }] ∧
      sampleSplitDescs.1.signature? "" ≠ sampleSplitDescs.2.signature? "" := by
  have h := ((((@ServerReachable.init sampleServer 0).createSession sampleSplitDescs.1).advance
    (c := .createSession sampleSplitDescs.1) (by decide) rfl).advance
    (c := .growPool sampleSplitDescs.1 0) (by decide) rfl).advance
    (c := .link sampleSplitDescs.1 0) (by decide) rfl
  have h := ((h.createSession sampleSplitDescs.2).advance (c := .createSession sampleSplitDescs.2)
    (by decide) rfl).advance (c := .link sampleSplitDescs.2 0) (by decide) rfl
  exact ⟨_, h, by decide, by decide, by decide⟩

end InferServer
end EasyDK
