import MTRpc.Common.ServerState
import MTRpc.Http.Text
import MTRpc.Rpc.ServicePool

/-!
# A rejected registration

`RpcServerImpl::RegisterService` first resets the statistics of all methods of the service and
then asks the pool, which rejects a name that it knows.  So a rejected registration, and also one
that is accepted, loses what was recorded for these methods; nothing else is lost
(`registerService_keeps_iff`).
-/

namespace MTRpc

open ServerState

variable {F V : Type*}

/-- `RpcServerImpl`, as far as registrations are concerned, with the statistics of `ServerState`. -/
structure RpcServerImpl (F : Type*) where
  servicePool : ServicePool
  statusmap : StatusMap F

namespace RpcServerImpl

/-- No service is registered. -/
def init : RpcServerImpl F := ⟨.init, ∅⟩

variable (N : Numbers F V) (murmurhash : Bytes → UInt64)

/-- `RegisterService` -/
def registerService (s : RpcServerImpl F) (service : Service) (takeOwnership : Bool) :
    RpcServerImpl F × Bool :=
  let statusmap := service.descriptor.methods.foldl (registerStatus N) s.statusmap
  let (servicePool, ret) := s.servicePool.registerService murmurhash service takeOwnership
  (⟨servicePool, statusmap⟩, ret)

/-- A call that changes the state. -/
inductive Call (V : Type*)
  | registerService (service : Service) (takeOwnership : Bool)
  | state (key : Bytes) (value : V)

/-- The state behind a call. -/
def call (s : RpcServerImpl F) : Call V → RpcServerImpl F
  | .registerService service own => (s.registerService N murmurhash service own).1
  | .state key value => { s with statusmap := ServerState.state N s.statusmap key value }

/-- The state behind a sequence of calls. -/
def reached (calls : List (Call V)) : RpcServerImpl F := calls.foldl (call N murmurhash) init

end RpcServerImpl

/-! ## What a registration should keep -/

/-- A pool to which the board of one service was added. -/
structure ServicePool.Adds (p p' : ServicePool) (service : Service) (own : Bool) : Prop where
  boards : p'.boards = p.boards ++ [⟨p.head, service, own⟩]
  isNew : service.descriptor.fullName ∉ p.serviceMap
  serviceMap : ∀ name, p'.serviceMap[name]? =
    if name = service.descriptor.fullName then some p.boards.length else p.serviceMap[name]?
  head : p'.head = some p.boards.length
  count : p'.count = p.count + 1
  cache : ∀ i, p'.cache i = p.cache i ∨ p.cache i = none ∧ p'.cache i = some p.boards.length

namespace RpcServerImpl

/-- The statistics of all methods that have an entry are as before. -/
def KeepsStatistics (s s' : RpcServerImpl F) : Prop :=
  ∀ key, key ∈ s.statusmap → s'.statusmap[key]? = s.statusmap[key]?

/-- What a registration that is rejected should keep, and one that is accepted. -/
def KeepsRest (s : RpcServerImpl F) (service : Service) (own : Bool) :
    RpcServerImpl F × Bool → Prop
  | (s', false) => s'.servicePool = s.servicePool ∧ KeepsStatistics s s'
  | (s', true) => s.servicePool.Adds s'.servicePool service own ∧ KeepsStatistics s s' ∧
      ∀ key, key ∈ s'.statusmap → key ∈ s.statusmap ∨ key ∈ service.descriptor.methods

end RpcServerImpl

/-! ## What it keeps -/

section

variable {N : Numbers F V} {murmurhash : Bytes → UInt64} {service : Service} {own : Bool}

/-- The entries behind the resets. -/
lemma getElem?_registerStatus (methods : List Bytes) (statusmap : StatusMap F) (key : Bytes) :
    (methods.foldl (registerStatus N) statusmap)[key]?
      = if key ∈ methods then some (zeros N) else statusmap[key]? := by
  induction methods generalizing statusmap with
  | nil => simp
  | cons name methods ih =>
    rw [List.foldl_cons, ih, registerStatus, Std.ExtTreeMap.getElem?_insert]
    simp only [Std.LawfulEqCmp.compare_eq_iff_eq, List.mem_cons]
    split_ifs <;> grind

/-- The pool that rejects a service is as before. -/
lemma ServicePool.registerService_cases (p : ServicePool) :
    ((p.registerService murmurhash service own).2 = false ∧
        (p.registerService murmurhash service own).1 = p) ∨
      ((p.registerService murmurhash service own).2 = true ∧
        p.Adds (p.registerService murmurhash service own).1 service own) := by
  rw [ServicePool.registerService]
  split_ifs with hmem
  · exact Or.inl ⟨rfl, rfl⟩
  · refine Or.inr ⟨rfl, rfl, hmem, fun name => ?_, rfl, rfl, fun i => ?_⟩
    · dsimp only
      rw [Std.ExtTreeMap.getElem?_insert]
      simp only [Std.LawfulEqCmp.compare_eq_iff_eq]
      exact if_congr eq_comm rfl rfl
    · dsimp only
      split_ifs with hfree
      · by_cases hi : i = cacheIndex murmurhash service.descriptor.fullName
        · rw [hi, Function.update_self]
          exact Or.inr ⟨hfree, rfl⟩
        · exact Or.inl (Function.update_of_ne hi _ _)
      · exact Or.inl rfl

namespace RpcServerImpl

variable {s : RpcServerImpl F}

/-- The resets keep the statistics when there was nothing to lose. -/
lemma keepsStatistics_iff :
    KeepsStatistics s (s.registerService N murmurhash service own).1 ↔
      ∀ key ∈ service.descriptor.methods, ∀ st, s.statusmap[key]? = some st → st = zeros N := by
  have hentry : ∀ key, (s.registerService N murmurhash service own).1.statusmap[key]?
      = if key ∈ service.descriptor.methods then some (zeros N) else s.statusmap[key]? :=
    getElem?_registerStatus service.descriptor.methods s.statusmap
  constructor
  · intro hkeep key hkey st hst
    have hmem : key ∈ s.statusmap := by
      rw [Std.ExtTreeMap.mem_iff_isSome_getElem?, hst]
      rfl
    have hsame := hkeep key hmem
    rw [hentry, if_pos hkey, hst] at hsame
    exact (Option.some.inj hsame).symm
  · intro hzero key hmem
    rw [hentry]
    split_ifs with hkey
    · obtain ⟨st, hst⟩ := Option.isSome_iff_exists.mp
        (Std.ExtTreeMap.mem_iff_isSome_getElem?.mp hmem)
      rw [hst, hzero key hkey st hst]
    · rfl

/-- Only the methods of the service get new entries. -/
lemma mem_statusmap {key : Bytes}
    (hkey : key ∈ (s.registerService N murmurhash service own).1.statusmap) :
    key ∈ s.statusmap ∨ key ∈ service.descriptor.methods := by
  by_cases hmethod : key ∈ service.descriptor.methods
  · exact Or.inr hmethod
  · have hentry := @getElem?_registerStatus F V N service.descriptor.methods s.statusmap key
    rw [if_neg hmethod] at hentry
    rw [Std.ExtTreeMap.mem_iff_isSome_getElem?] at hkey ⊢
    exact Or.inl (hentry ▸ hkey)

lemma keepsRest_iff :
    s.KeepsRest service own (s.registerService N murmurhash service own) ↔
      ∀ key ∈ service.descriptor.methods, ∀ st, s.statusmap[key]? = some st → st = zeros N := by
  rw [← @keepsStatistics_iff F V N murmurhash service own s]
  rcases @ServicePool.registerService_cases murmurhash service own s.servicePool with
    ⟨hret, hpool⟩ | ⟨hret, hpool⟩
  · have hcall : s.registerService N murmurhash service own
        = ((s.registerService N murmurhash service own).1, false) := Prod.ext rfl hret
    rw [hcall]
    exact and_iff_right hpool
  · have hcall : s.registerService N murmurhash service own
        = ((s.registerService N murmurhash service own).1, true) := Prod.ext rfl hret
    rw [hcall]
    exact ⟨fun h => h.2.1, fun h => ⟨hpool, h, fun _ => mem_statusmap⟩⟩

end RpcServerImpl

end

/-- In every state behind registrations and reported values, and for every service: a
registration keeps what it should, whether it is rejected or accepted, if and only if the
statistics recorded for the methods of the service are all zero. -/
theorem registerService_keeps_iff (N : Numbers F V) (murmurhash : Bytes → UInt64)
    (calls : List (RpcServerImpl.Call V)) (service : Service) (own : Bool) :
    (RpcServerImpl.reached N murmurhash calls).KeepsRest service own
        ((RpcServerImpl.reached N murmurhash calls).registerService N murmurhash service own) ↔
      ∀ key ∈ service.descriptor.methods, ∀ st,
        (RpcServerImpl.reached N murmurhash calls).statusmap[key]? = some st → st = zeros N :=
  RpcServerImpl.keepsRest_iff

/-- A service with one method. -/
def echoService : Service := ⟨1, ascii "EchoService", [ascii "EchoService.Echo"]⟩

/-- The service is registered, 5 is reported for its method, and the service is registered
again: the registration is rejected and the statistics are zero again. -/
theorem registerService_resets :
    ¬ ∀ (murmurhash : Bytes → UInt64) (calls : List (RpcServerImpl.Call ℚ)) (service : Service)
        (own : Bool),
      (RpcServerImpl.reached exact murmurhash calls).KeepsRest service own
        ((RpcServerImpl.reached exact murmurhash calls).registerService exact murmurhash service
          own) := by
  intro hkeeps
  let murmurhash : Bytes → UInt64 := fun _ => 0
  have hzero := RpcServerImpl.keepsRest_iff.mp (hkeeps murmurhash
    [.registerService echoService true, .state (ascii "EchoService.Echo") 5] echoService true)
  have hentry : ∃ st, (RpcServerImpl.reached exact murmurhash [.registerService echoService true,
      .state (ascii "EchoService.Echo") (5 : ℚ)]).statusmap[ascii "EchoService.Echo"]? = some st ∧
        st.num = 1 := by
    have hsmall : ¬ exact.tooLarge 5 = true := by
      rw [exact, decide_eq_true_iff, maxNum]
      norm_num
    refine ⟨⟨(stateA exact 5).apply (zeros exact).a, (stateB exact 5).apply (zeros exact).b⟩,
      ?_, rfl⟩
    show (ServerState.state exact (registerStatus exact ∅ (ascii "EchoService.Echo"))
      (ascii "EchoService.Echo") 5)[ascii "EchoService.Echo"]? = _
    rw [ServerState.state, if_neg hsmall, registerStatus, Std.ExtTreeMap.getElem?_insert_self]
    exact Std.ExtTreeMap.getElem?_insert_self
  obtain ⟨st, hst, hnum⟩ := hentry
  have hzeros := hzero _ (List.mem_singleton_self _) st hst
  rw [hzeros] at hnum
  exact absurd hnum (by decide)

end MTRpc
