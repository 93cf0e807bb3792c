import EasyDK.InferServer.Sessions
import Mathlib.Logic.Relation
/-!
# The thread pool

`CreateExecutor` grows the pool by three threads per engine, up to `max_thread_num`, and
`CheckAndDestroyExecutor` shrinks it by two per engine when more threads than that are idle.

* Cap: no step takes the pool past `max_thread_num`, or past its size when the run began, under
  any interleaving (`ServerStep.threads_le`, `threads_le_of_run`).
* Drift: the two amounts differ, as the spec's sizing rule says.  A session created on a new
  signature of `e` engines and destroyed again, with the whole pool idle at the shrink, leaves
  the pool `e` threads larger (`pool_cycle_grows`), so the pool does not come back to within
  `2 * engine_num` of its start: three executors of one engine each take an empty pool to 9
  threads and back to 3 (`pool_drift`).

`IdleStep` is a server step whose pool is wholly idle, `IdleNumber() = Size()`, and
`Server.serve` makes a user's calls one after another, each run alone to its end.
-/

namespace EasyDK
namespace InferServer

variable {cfg : ServerConfig} {w w' : Server}

/-! ## The cap -/

/-- `Resize(min(thread_num + 3 * engine_num, max_thread_num))` stays within `max_thread_num`,
unless the pool was already larger. -/
theorem Server.growThreads_le (maxThreads engineNum threads : Nat) :
    Server.growThreads maxThreads engineNum threads ≤ max threads maxThreads := by
  unfold Server.growThreads; split <;> omega

theorem Server.shrinkThreads_le (idle thNum threads : Nat) :
    Server.shrinkThreads idle thNum threads ≤ threads := by
  unfold Server.shrinkThreads; split <;> omega

@[simp] theorem Server.createExecutor_threads (name : String) (k : Nat) :
    (w.createExecutor name k).2.threads = w.threads := by
  unfold Server.createExecutor; split <;> rfl

/-- Only the resize of `CreateExecutor` grows the pool. -/
theorem ServerStep.threads_le (hs : ServerStep cfg w w') :
    w'.threads ≤ max w.threads cfg.maxThreads := by
  cases hs with
  | createSession | destroySession | executorFails => exact le_max_left _ _
  | @advance _ c _ idle _ h =>
    cases c with
    | createSession desc =>
      obtain ⟨name, -, rfl⟩ := Option.map_eq_some'.1 h
      exact le_of_eq_of_le (Server.createExecutor_threads name _) (le_max_left _ _)
    | growPool desc e => cases h; exact Server.growThreads_le _ _ _
    | link desc e => cases h; exact le_max_left _ _
    | destroySession s =>
      obtain ⟨⟨d, e⟩, -, rfl⟩ := Option.map_eq_some'.1 h
      dsimp only; split <;> exact le_max_left _ _
    | checkAndDestroy s e =>
      obtain ⟨⟨w₁, last⟩, h₁, rfl⟩ := Option.map_eq_some'.1 h
      obtain ⟨m, rfl⟩ := Server.checkAndDestroy_eq h₁
      dsimp only; split <;> exact le_max_left _ _
    | deleteExecutor e => cases h; exact le_max_left _ _
    | shrinkPool th => cases h; exact le_trans (Server.shrinkThreads_le _ _ _) (le_max_left _ _)

/-- Under any interleaving of calls, the pool never grows past `max_thread_num`, or past its size
when the run began. -/
theorem threads_le_of_run (h : Relation.ReflTransGen (ServerStep cfg) w w') :
    w'.threads ≤ max w.threads cfg.maxThreads := by
  induction h with
  | refl => exact le_max_left _ _
  | tail _ hs ih => have := hs.threads_le; omega

/-! ## Runs with an idle pool -/

/-- A server step read with the whole pool idle, `IdleNumber() = Size()`: a user's call, or the
next step of a call in progress. -/
inductive IdleStep (cfg : ServerConfig) : Server → Server → Prop
  | createSession (w : Server) (desc : SessionDesc) :
      IdleStep cfg w { w with calls := w.calls ++ [.createSession desc] }
  | destroySession {w : Server} {s : Nat} (hs : s ∈ w.held) :
      IdleStep cfg w { w with held := w.held.erase s, calls := w.calls ++ [.destroySession s] }
  | advance {w w' : Server} {c : Call} (hc : c ∈ w.calls)
      (h : w.advance cfg w.threads c = some w') : IdleStep cfg w w'

theorem IdleStep.serverStep (h : IdleStep cfg w w') : ServerStep cfg w w' := by
  cases h with
  | createSession => exact .createSession _ _
  | destroySession hs => exact .destroySession hs
  | advance hc h => exact .advance hc _ le_rfl h

/-- A run with an idle pool from a reachable server is a run of the server. -/
theorem ServerReachable.of_idle (hw : ServerReachable cfg w)
    (h : Relation.ReflTransGen (IdleStep cfg) w w') : ServerReachable cfg w' := by
  induction h with
  | refl => exact hw
  | tail _ hs ih => exact ih.step hs.serverStep

/-- What a user asks of the server: `CreateSession` of a descriptor, or `DestroySession` of a
session. -/
inductive Request
  | create (desc : SessionDesc)
  | destroy (session : Nat)
  deriving DecidableEq, Repr

namespace Server

/-- The calls in progress run with the whole pool idle for at most `fuel` steps, the first call
taking each; a step that aborts ends the run. -/
def settle (cfg : ServerConfig) : Nat → Server → Server
  | 0, w => w
  | fuel + 1, w =>
    match w.calls with
    | [] => w
    | c :: _ =>
      match w.advance cfg w.threads c with
      | some w' => settle cfg fuel w'
      | none => w

/-- A user's requests made one after another, each given four steps, as many as a call takes,
before the next is made.  A session the user does not hold is not destroyed. -/
def serve (cfg : ServerConfig) : List Request → Server → Server
  | [], w => w
  | .create desc :: rs, w =>
    serve cfg rs (settle cfg 4 { w with calls := w.calls ++ [.createSession desc] })
  | .destroy s :: rs, w =>
    serve cfg rs (if s ∈ w.held then
      settle cfg 4 { w with held := w.held.erase s, calls := w.calls ++ [.destroySession s] }
    else w)

theorem settle_run (fuel : Nat) (w : Server) :
    Relation.ReflTransGen (IdleStep cfg) w (settle cfg fuel w) := by
  induction fuel generalizing w with
  | zero => exact .refl
  | succ fuel ih =>
    unfold settle
    split
    · exact .refl
    · rename_i c rest hcalls
      split
      · rename_i w₁ h
        exact .head (.advance (by simp [hcalls]) h) (ih w₁)
      · exact .refl

/-- Serving requests is a run with an idle pool. -/
theorem serve_run : ∀ (rs : List Request) (w : Server),
    Relation.ReflTransGen (IdleStep cfg) w (serve cfg rs w)
  | [], _ => .refl
  | .create desc :: rs, w =>
    (Relation.ReflTransGen.head (.createSession w desc) (settle_run 4 _)).trans (serve_run rs _)
  | .destroy s :: rs, w => by
    unfold serve
    split
    · exact (Relation.ReflTransGen.head (.destroySession ‹_›) (settle_run 4 _)).trans
        (serve_run rs _)
    · exact serve_run rs w

end Server

/-! ## Drift -/

theorem lookup_append_fresh {n : String} {k : Nat} {m : List (String × Nat)}
    (h : m.lookup n = none) : (m ++ [(n, k)]).lookup n = some k := by
  simp [List.lookup_append, h]

/-- A session created on a signature no executor has, with `engine_num` `e ≥ 1` and room for
`3 * e` more threads below `max_thread_num`, and then destroyed, on a server with no call in
progress and its whole pool idle at the shrink: `CreateExecutor` grows the pool by `3 * e`,
`CheckAndDestroyExecutor` shrinks it by `2 * e`, and the cycle leaves `executor_map_` and the
calls as they were and the pool `e` threads larger. -/
theorem pool_cycle_grows {w : Server} {desc : SessionDesc} {name : String}
    (hname : desc.executorName? cfg.defaultPost = some name) (hnew : w.hasName name = false)
    (hcalls : w.calls = []) (he : 1 ≤ desc.engineNum)
    (hroom : w.threads + 3 * desc.engineNum ≤ cfg.maxThreads) :
    Relation.ReflTransGen (IdleStep cfg) w
        (Server.serve cfg [.create desc, .destroy w.sessions.length] w) ∧
      (Server.serve cfg [.create desc, .destroy w.sessions.length] w).threads =
        w.threads + desc.engineNum ∧
      (Server.serve cfg [.create desc, .destroy w.sessions.length] w).executorMap =
        w.executorMap ∧
      (Server.serve cfg [.create desc, .destroy w.sessions.length] w).calls = [] := by
  have hl : w.executorMap.lookup name = none := by simpa [Server.hasName] using hnew
  have hlt : w.threads < cfg.maxThreads := by omega
  have hne : ∀ (a : String) (b : Nat), (a, b) ∈ w.executorMap → ¬a = name := fun a b hab h => by
    simpa [h] using List.lookup_eq_none_iff.1 hl _ hab
  refine ⟨Server.serve_run _ w, ?_⟩
  simp [Server.serve, Server.settle, Server.advance, hcalls, hname, Server.createExecutor, hl,
    Server.hasName, Server.growThreads, hlt, Server.link, Server.existExecutor,
    lookup_append_fresh hl, Server.checkAndDestroy, Server.unlink, Server.deleteExecutor,
    Server.thNum, Server.shrinkThreads, inf_eq_left.2 hroom, hne]
  exact ⟨by split_ifs <;> omega, hne⟩

/-- `pool_cycle_grows` on an empty pool, for `sampleDesc`. -/
theorem pool_cycle_grows_sample :
    sampleDesc.executorName? sampleServer.defaultPost = some "resnet_subnet0_Pre_Post" ∧
      ({} : Server).hasName "resnet_subnet0_Pre_Post" = false ∧
      Relation.ReflTransGen (IdleStep sampleServer) {}
        (Server.serve sampleServer [.create sampleDesc, .destroy 0] {}) ∧
      (Server.serve sampleServer [.create sampleDesc, .destroy 0] {}).threads = 0 + 1 ∧
      (Server.serve sampleServer [.create sampleDesc, .destroy 0] {}).executorMap = [] ∧
      (Server.serve sampleServer [.create sampleDesc, .destroy 0] {}).calls = [] :=
  ⟨rfl, rfl, pool_cycle_grows rfl rfl rfl (by decide) (by decide)⟩

/-- Three descriptors of one engine each, on three models. -/
def sampleModels : List SessionDesc :=
  [⟨some ("a", "f"), some "p", some "q", 1⟩, ⟨some ("b", "f"), some "p", some "q", 1⟩,
    ⟨some ("c", "f"), some "p", some "q", 1⟩]

/-- A session of each of `sampleModels`, then `DestroySession` of each. -/
def sampleRequests : List Request :=
  sampleModels.map .create ++ [.destroy 0, .destroy 1, .destroy 2]

/-- On an empty pool, the three sessions of `sampleRequests`, each of one engine, are created
and destroyed one after another, with the whole pool idle at every shrink.  The pool grows to 9
threads and shrinks back to 3, not to within `2 * engine_num = 2` threads of 0. -/
theorem pool_drift :
    ∃ w, Relation.ReflTransGen (IdleStep sampleServer) {} w ∧ ServerReachable sampleServer w ∧
      w.sessions.map Prod.fst = sampleModels ∧ (∀ p ∈ w.sessions, p.1.engineNum = 1) ∧
      w.held = [] ∧ w.calls = [] ∧ w.executorMap = [] ∧ w.threads = 3 ∧
      ({} : Server).threads + 2 * 1 < w.threads :=
  ⟨_, Server.serve_run sampleRequests {},
    (ServerReachable.init 0).of_idle (Server.serve_run sampleRequests {}),
    by decide, by decide, by decide, by decide, by decide, by decide, by decide⟩

/-- `threads_le_of_run` on the run of `pool_drift`. -/
theorem threads_le_of_run_sample :
    Relation.ReflTransGen (ServerStep sampleServer) {}
        (Server.serve sampleServer sampleRequests {}) ∧
      (Server.serve sampleServer sampleRequests {}).threads ≤
        max ({} : Server).threads sampleServer.maxThreads :=
  have h := Relation.ReflTransGen.mono (fun _ _ => IdleStep.serverStep)
    (Server.serve_run sampleRequests {})
  ⟨h, threads_le_of_run h⟩

end InferServer
end EasyDK
