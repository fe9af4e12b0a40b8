import Mathlib.Data.List.Induction
import Mathlib.Data.List.Nodup
import Std.Data.ExtTreeMap
import MTRpc.Mio.Buffer

/-!
# The pool of services

`ServicePool` keeps the board of each registered service in four places: a map ordered by the
names, a list linked from `_head`, a cache of `SERVICE_CACHE_SLOT_COUNT` slots in which the first
board of a slot stays, and a counter.  The boards themselves are on the heap; their addresses are
the positions in the list of boards.

The services that are registered are those first passed under their names (`registered`).  The
pool describes them (`Holds`): the map is the list of their positions, the links go from each
board to the one before it, and a board in the cache stands in the slot of its own name.  So what
the cache answers is what the map answers, whatever the hash function.
-/

namespace MTRpc

/-- `SERVICE_CACHE_SLOT_COUNT` -/
def serviceCacheSlotCount : ℕ := 1019

/-- `google::protobuf::ServiceDescriptor`: the full names of a service and of its methods. -/
structure ServiceDescriptor where
  fullName : Bytes
  methods : List Bytes
deriving DecidableEq, Repr

/-- A pointer to a `google::protobuf::Service`. -/
structure Service where
  address : ℕ
  descriptor : ServiceDescriptor
deriving DecidableEq, Repr

/-- `ServiceBoard` -/
structure ServiceBoard where
  next : Option ℕ
  svc : Service
  own : Bool
deriving DecidableEq, Repr

/-- `ServiceName` -/
def ServiceBoard.serviceName (b : ServiceBoard) : Bytes := b.svc.descriptor.fullName

/-- `ServicePool` with the boards that it has made. -/
structure ServicePool where
  boards : List ServiceBoard
  serviceMap : Std.ExtTreeMap Bytes ℕ compare
  head : Option ℕ
  count : ℕ
  cache : ℕ → Option ℕ

namespace ServicePool

/-- The constructor. -/
def init : ServicePool := ⟨[], ∅, none, 0, fun _ => none⟩

section

variable (murmurhash : Bytes → UInt64) (p : ServicePool)

/-- `CacheIndex` -/
def cacheIndex (name : Bytes) : ℕ := (murmurhash name).toNat % serviceCacheSlotCount

/-- `RegisterService` -/
def registerService (service : Service) (takeOwnership : Bool) : ServicePool × Bool :=
  let svcName := service.descriptor.fullName
  if svcName ∈ p.serviceMap then (p, false)
  else
    let svcBoard := p.boards.length
    let index := cacheIndex murmurhash svcName
    ({ boards := p.boards ++ [⟨p.head, service, takeOwnership⟩]
       serviceMap := p.serviceMap.insert svcName svcBoard
       head := some svcBoard
       count := p.count + 1
       cache := if p.cache index = none then Function.update p.cache index (some svcBoard)
         else p.cache }, true)

/-- `_cache[cache_index] != NULL && _cache[cache_index]->ServiceName() == svc_name` -/
def cached (svcName : Bytes) : Option ℕ :=
  (p.cache (cacheIndex murmurhash svcName)).filter fun b =>
    (p.boards[b]?).map ServiceBoard.serviceName == some svcName

/-- `FindService` -/
def findService (svcName : Bytes) : Option ℕ :=
  match p.cached murmurhash svcName with
  | some b => some b
  | none => p.serviceMap[svcName]?

/-- The walk of `ListService` along the links, with `tmp_map`; there is no result for a link
that leads nowhere, nor when the fuel runs out. -/
def walk : ℕ → Option ℕ → Std.ExtTreeMap Bytes ℕ compare →
    Option (Std.ExtTreeMap Bytes ℕ compare)
  | _, none, tmpMap => some tmpMap
  | 0, some _, _ => none
  | fuel + 1, some sp, tmpMap =>
    match p.boards[sp]? with
    | none => none
    | some board => walk fuel board.next (tmpMap.insert board.serviceName sp)

/-- `ListService`, with the fuel for as many boards as there are. -/
def listService : Option (List ℕ) :=
  (p.walk p.boards.length p.head ∅).map fun tmpMap => tmpMap.toList.map Prod.snd

/-- `ServiceCount` -/
def serviceCount : ℕ := p.count

/-- Calls of `RegisterService` one after the other. -/
def registerAll (calls : List (Service × Bool)) : ServicePool :=
  calls.foldl (fun p call => (p.registerService murmurhash call.1 call.2).1) init

end

end ServicePool

/-! ## The registered services -/

/-- The name of the service of a call. -/
def nameOf (call : Service × Bool) : Bytes := call.1.descriptor.fullName

/-- The first call of each name, in order. -/
def registered (calls : List (Service × Bool)) : List (Service × Bool) :=
  calls.foldl (fun regs call => if nameOf call ∈ regs.map nameOf then regs else regs ++ [call]) []

/-- The address of the board made before the `k`-th one. -/
def before : ℕ → Option ℕ
  | 0 => none
  | k + 1 => some k

namespace ServicePool

variable {murmurhash : Bytes → UInt64} {p : ServicePool} {regs : List (Service × Bool)}
variable {call : Service × Bool} {name : Bytes}

/-- The pool holds the services `regs`, in the order of their registration. -/
structure Holds (murmurhash : Bytes → UInt64) (p : ServicePool) (regs : List (Service × Bool)) :
    Prop where
  boards : ∀ k, p.boards[k]? = (regs[k]?).map fun reg => (⟨before k, reg.1, reg.2⟩ : ServiceBoard)
  nodup : (regs.map nameOf).Nodup
  serviceMap : ∀ (name : Bytes) (b : ℕ),
    p.serviceMap[name]? = some b ↔ (regs.map nameOf)[b]? = some name
  head : p.head = before regs.length
  count : p.count = regs.length
  cache : ∀ i b, p.cache i = some b →
    ∃ name, (regs.map nameOf)[b]? = some name ∧ cacheIndex murmurhash name = i

lemma holds_init : Holds murmurhash init [] :=
  ⟨fun _ => by simp [init], List.nodup_nil, fun _ _ => by simp [init], rfl, rfl, by simp [init]⟩

lemma getElem?_snoc {α : Type*} (l : List α) (a : α) (k : ℕ) :
    (l ++ [a])[k]? = if k = l.length then some a else l[k]? := by
  split_ifs with hk
  · rw [hk, List.getElem?_concat_length]
  · rcases Nat.lt_or_gt_of_ne hk with hlt | hgt
    · exact List.getElem?_append_left hlt
    · rw [List.getElem?_eq_none (by simp; omega), List.getElem?_eq_none (by omega)]

namespace Holds

lemma length_boards (h : Holds murmurhash p regs) : p.boards.length = regs.length := by
  refine le_antisymm (not_lt.mp fun hlt => ?_) (not_lt.mp fun hlt => ?_)
  · have hboard := h.boards regs.length
    rw [List.getElem?_eq_getElem hlt, List.getElem?_eq_none (Nat.le_refl _)] at hboard
    simp at hboard
  · have hboard := h.boards p.boards.length
    rw [List.getElem?_eq_getElem hlt, List.getElem?_eq_none (Nat.le_refl _)] at hboard
    simp at hboard

lemma mem_serviceMap (h : Holds murmurhash p regs) :
    name ∈ p.serviceMap ↔ name ∈ regs.map nameOf := by
  rw [Std.ExtTreeMap.mem_iff_isSome_getElem?, Option.isSome_iff_exists, List.mem_iff_getElem?]
  exact exists_congr fun b => h.serviceMap name b

/-- The name on a board. -/
lemma serviceName (h : Holds murmurhash p regs) (b : ℕ) :
    (p.boards[b]?).map ServiceBoard.serviceName = (regs.map nameOf)[b]? := by
  rw [h.boards, List.getElem?_map, Option.map_map]
  rfl

/-- A service with a new name. -/
lemma register (h : Holds murmurhash p regs) (hnew : nameOf call ∉ regs.map nameOf) :
    Holds murmurhash (p.registerService murmurhash call.1 call.2).1 (regs ++ [call]) := by
  have hnot : call.1.descriptor.fullName ∉ p.serviceMap := mt h.mem_serviceMap.mp hnew
  have hlen : (regs.map nameOf).length = regs.length := List.length_map _
  rw [registerService, if_neg hnot]
  refine ⟨?_, ?_, ?_, ?_, ?_, ?_⟩
  · intro k
    dsimp only
    rw [getElem?_snoc, getElem?_snoc, h.length_boards]
    split_ifs with hk
    · rw [hk, h.head]
      rfl
    · exact h.boards k
  · rw [List.map_append, List.map_singleton, ← List.concat_eq_append]
    exact h.nodup.concat hnew
  · intro name b
    dsimp only
    rw [Std.ExtTreeMap.getElem?_insert, List.map_append, List.map_singleton, getElem?_snoc, hlen,
      h.length_boards]
    simp only [Std.LawfulEqCmp.compare_eq_iff_eq]
    have hend : (regs.map nameOf)[regs.length]? = none := by simp
    by_cases hname : call.1.descriptor.fullName = name
    · subst hname
      rw [if_pos rfl, Option.some.injEq]
      split_ifs with hb
      · exact iff_of_true hb.symm rfl
      · exact iff_of_false (Ne.symm hb) fun hmem => hnew (List.mem_of_getElem? hmem)
    · rw [if_neg hname, h.serviceMap]
      split_ifs with hb
      · rw [hb, hend]
        exact iff_of_false (by simp) fun heq => hname (Option.some.inj heq)
      · exact Iff.rfl
  · rw [List.length_append, h.length_boards]
    rfl
  · rw [List.length_append, h.count]
    rfl
  · intro i b hcache
    rw [List.map_append, List.map_singleton]
    dsimp only at hcache
    have hkeep : ∀ b, p.cache i = some b → ∃ name,
        (regs.map nameOf ++ [nameOf call])[b]? = some name ∧ cacheIndex murmurhash name = i := by
      intro b hb
      obtain ⟨name, hname, hindex⟩ := h.cache i b hb
      obtain ⟨hlt, -⟩ := List.getElem?_eq_some_iff.mp hname
      exact ⟨name, by rwa [List.getElem?_append_left hlt], hindex⟩
    split_ifs at hcache with hfree
    · by_cases hi : i = cacheIndex murmurhash call.1.descriptor.fullName
      · rw [hi, Function.update_self, h.length_boards, Option.some.injEq] at hcache
        refine ⟨nameOf call, ?_, hi.symm⟩
        rw [getElem?_snoc, hlen, if_pos hcache.symm]
      · rw [Function.update_of_ne hi] at hcache
        exact hkeep b hcache
    · exact hkeep b hcache

/-- A service whose name is known. -/
lemma reject (h : Holds murmurhash p regs) (hold : nameOf call ∈ regs.map nameOf) :
    p.registerService murmurhash call.1 call.2 = (p, false) := by
  have hmem : call.1.descriptor.fullName ∈ p.serviceMap := h.mem_serviceMap.mpr hold
  simp only [registerService, if_pos hmem]

/-- What the cache answers is what the map answers. -/
lemma findService_eq (h : Holds murmurhash p regs) :
    p.findService murmurhash name = p.serviceMap[name]? := by
  rw [findService]
  cases hcached : p.cached murmurhash name with
  | none => rfl
  | some b =>
    rw [cached, Option.filter_eq_some_iff] at hcached
    obtain ⟨-, hname⟩ := hcached
    rw [beq_iff_eq, h.serviceName] at hname
    exact ((h.serviceMap name b).mpr hname).symm

/-- The walk of `ListService` collects the map. -/
lemma walk_eq (h : Holds murmurhash p regs) {k fuel : ℕ} {tmpMap : Std.ExtTreeMap Bytes ℕ compare}
    (hk : k ≤ regs.length) (hfuel : k ≤ fuel)
    (htmp : ∀ name b, tmpMap[name]? = some b ↔ k ≤ b ∧ (regs.map nameOf)[b]? = some name) :
    p.walk fuel (before k) tmpMap = some p.serviceMap := by
  induction k generalizing fuel tmpMap with
  | zero =>
    have hmap : tmpMap = p.serviceMap := by
      refine Std.ExtTreeMap.ext_getElem? fun name => Option.ext fun b => ?_
      rw [htmp, h.serviceMap]
      simp
    rw [before, walk, hmap]
  | succ k ih =>
    obtain ⟨fuel, rfl⟩ : ∃ n, fuel = n + 1 := ⟨fuel - 1, by omega⟩
    have hboard : p.boards[k]? = some ⟨before k, regs[k].1, regs[k].2⟩ := by
      rw [h.boards, List.getElem?_eq_getElem (by omega)]
      rfl
    rw [before, walk, hboard]
    refine ih (by omega) (by omega) fun name b => ?_
    have hk' : (regs.map nameOf)[k]? = some (nameOf regs[k]) := by
      rw [List.getElem?_map, List.getElem?_eq_getElem (by omega)]
      rfl
    have hlt : k < (regs.map nameOf).length := (List.getElem?_eq_some_iff.mp hk').1
    rw [Std.ExtTreeMap.getElem?_insert]
    simp only [Std.LawfulEqCmp.compare_eq_iff_eq]
    rw [show ServiceBoard.serviceName ⟨before k, regs[k].1, regs[k].2⟩ = nameOf regs[k] from rfl]
    by_cases hname : nameOf regs[k] = name
    · rw [hname] at hk'
      rw [if_pos hname, Option.some.injEq]
      constructor
      · rintro rfl
        exact ⟨Nat.le_refl _, hk'⟩
      · rintro ⟨-, hb⟩
        exact (List.getElem?_inj hlt h.nodup).mp (hk'.trans hb.symm)
    · have hne : (regs.map nameOf)[k]? ≠ some name := fun heq =>
        hname (Option.some.inj (hk'.symm.trans heq))
      rw [if_neg hname, htmp]
      refine and_congr_left fun hb => ⟨Nat.le_of_succ_le, fun hle => ?_⟩
      exact Nat.lt_of_le_of_ne hle fun heq => hne (heq ▸ hb)

/-- `ListService` lists the values of the map. -/
lemma listService_eq (h : Holds murmurhash p regs) :
    p.listService = some (p.serviceMap.toList.map Prod.snd) := by
  rw [listService, h.head, h.length_boards, h.walk_eq (Nat.le_refl _) (Nat.le_refl _)]
  · rfl
  · intro name b
    rw [Std.ExtTreeMap.getElem?_empty]
    refine iff_of_false (by simp) ?_
    rintro ⟨hle, hb⟩
    have := (List.getElem?_eq_some_iff.mp hb).1
    rw [List.length_map] at this
    omega

end Holds

/-- After any calls the pool holds the services first passed under their names. -/
lemma holds_registerAll (calls : List (Service × Bool)) :
    Holds murmurhash (registerAll murmurhash calls) (registered calls) := by
  induction calls using List.reverseRecOn with
  | nil => exact holds_init
  | append_singleton calls call ih =>
    rw [registerAll, registered, List.foldl_append, List.foldl_append]
    simp only [List.foldl_cons, List.foldl_nil]
    split_ifs with hmem
    · have hsame := ih.reject hmem
      rw [registerAll] at hsame
      rw [hsame]
      exact ih
    · exact ih.register hmem

/-- The first call of each name is the one that a search finds. -/
lemma find?_registered (calls : List (Service × Bool)) (name : Bytes) :
    (registered calls).find? (nameOf · = name) = calls.find? (nameOf · = name) := by
  induction calls using List.reverseRecOn with
  | nil => rfl
  | append_singleton calls call ih =>
    have hsnoc : registered (calls ++ [call]) = if nameOf call ∈ (registered calls).map nameOf
        then registered calls else registered calls ++ [call] := by
      rw [registered, List.foldl_append]
      rfl
    rw [hsnoc, List.find?_append, ← ih]
    split_ifs with hmem
    · by_cases hname : nameOf call = name
      · obtain ⟨reg, hreg, heq⟩ := List.mem_map.mp hmem
        have hsome : ((registered calls).find? (nameOf · = name)).isSome := by
          rw [List.find?_isSome]
          exact ⟨reg, hreg, by simpa using heq.trans hname⟩
        rw [Option.or_of_isSome hsome]
      · simp [hname]
    · rw [List.find?_append]

/-- The board that a lookup finds. -/
lemma Holds.findService_spec (h : Holds murmurhash p regs) (name : Bytes) :
    match regs.find? (nameOf · = name) with
    | none => p.findService murmurhash name = none
    | some call => ∃ b board, p.findService murmurhash name = some b ∧
        p.boards[b]? = some board ∧ board.svc = call.1 ∧ board.own = call.2 := by
  rw [h.findService_eq]
  split
  · rename_i hnone
    rw [Option.eq_none_iff_forall_ne_some]
    intro b hb
    obtain ⟨reg, hreg, hname⟩ := List.mem_map.mp
      (List.mem_of_getElem? ((h.serviceMap name b).mp hb))
    simpa [hname] using List.find?_eq_none.mp hnone reg hreg
  · rename_i call hcall
    obtain ⟨b, hb⟩ := List.mem_iff_getElem?.mp (List.mem_of_find?_eq_some hcall)
    have hname : nameOf call = name := by simpa using List.find?_some hcall
    have hboard := h.boards b
    rw [hb] at hboard
    refine ⟨b, _, (h.serviceMap name b).mpr ?_, hboard, rfl, rfl⟩
    rw [List.getElem?_map, hb, Option.map_some, hname]

/-- The names of the registered services are those of all calls. -/
lemma mem_names_registered (calls : List (Service × Bool)) (name : Bytes) :
    name ∈ (registered calls).map nameOf ↔ name ∈ calls.map nameOf := by
  have hfind : ∀ l : List (Service × Bool),
      name ∈ l.map nameOf ↔ (l.find? (nameOf · = name)).isSome := by
    intro l
    simp [List.mem_map]
  rw [hfind, hfind, find?_registered]

/-- The list of `ListService`, with the names in front of the boards. -/
lemma Holds.listService_spec (h : Holds murmurhash p regs) :
    ∃ list names : List _, p.listService = some list ∧
      names.map (p.findService murmurhash) = list.map some ∧ list.Nodup ∧
      names.Pairwise (fun a b => compare a b = .lt) ∧
      (∀ name, name ∈ names ↔ name ∈ regs.map nameOf) ∧ p.serviceCount = list.length := by
  have hnodup : (p.serviceMap.toList.map Prod.fst).Nodup := by
    rw [Std.ExtTreeMap.map_fst_toList_eq_keys]
    exact Std.ExtTreeMap.nodup_keys
  have hmem : ∀ name, name ∈ p.serviceMap.toList.map Prod.fst ↔ name ∈ regs.map nameOf := by
    intro name
    rw [Std.ExtTreeMap.map_fst_toList_eq_keys, Std.ExtTreeMap.mem_keys, h.mem_serviceMap]
  refine ⟨_, p.serviceMap.toList.map Prod.fst, h.listService_eq, ?_, ?_, ?_, hmem, ?_⟩
  · rw [List.map_map, List.map_map]
    refine List.map_congr_left fun entry hentry => ?_
    exact h.findService_eq.trans (Std.ExtTreeMap.mem_toList_iff_getElem?_eq_some.mp hentry)
  · refine List.Nodup.map_on (fun entry₁ h₁ entry₂ h₂ heq => ?_) hnodup.of_map
    have hname : ∀ entry ∈ p.serviceMap.toList, (regs.map nameOf)[entry.2]? = some entry.1 :=
      fun entry hentry => (h.serviceMap _ _).mp
        (Std.ExtTreeMap.mem_toList_iff_getElem?_eq_some.mp hentry)
    have hsame := (hname entry₁ h₁).symm.trans (heq ▸ hname entry₂ h₂)
    exact Prod.ext (Option.some.inj hsame) heq
  · rw [Std.ExtTreeMap.map_fst_toList_eq_keys]
    exact Std.ExtTreeMap.ordered_keys
  · have hperm := (List.perm_ext_iff_of_nodup hnodup h.nodup).mpr hmem
    have hlen := hperm.length_eq
    rw [List.length_map, List.length_map] at hlen
    rw [serviceCount, h.count, List.length_map, hlen]

end ServicePool

/-- After any calls of `RegisterService`, with any hash function: `FindService` finds the board of
the first service passed under the name, and nothing for a name that was not passed;
`ListService` lists the boards that `FindService` finds, each once and in the order of the names;
and `ServiceCount` is their number. -/
theorem servicePool_agrees (murmurhash : Bytes → UInt64) (calls : List (Service × Bool)) :
    (∀ name, match calls.find? (nameOf · = name) with
      | none => (ServicePool.registerAll murmurhash calls).findService murmurhash name = none
      | some call => ∃ b board,
          (ServicePool.registerAll murmurhash calls).findService murmurhash name = some b ∧
          (ServicePool.registerAll murmurhash calls).boards[b]? = some board ∧
          board.svc = call.1 ∧ board.own = call.2) ∧
      ∃ (list : List ℕ) (names : List Bytes),
        (ServicePool.registerAll murmurhash calls).listService = some list ∧
        names.map ((ServicePool.registerAll murmurhash calls).findService murmurhash)
          = list.map some ∧ list.Nodup ∧
        names.Pairwise (fun a b => compare a b = .lt) ∧
        (∀ name, name ∈ names ↔ name ∈ calls.map nameOf) ∧
        (ServicePool.registerAll murmurhash calls).serviceCount = list.length := by
  have hholds := @ServicePool.holds_registerAll murmurhash calls
  constructor
  · intro name
    have hfind := hholds.findService_spec name
    rwa [ServicePool.find?_registered] at hfind
  · obtain ⟨list, names, hlist, hmap, hnodup, hsorted, hmem, hcount⟩ := hholds.listService_spec
    exact ⟨list, names, hlist, hmap, hnodup, hsorted,
      fun name => (hmem name).trans (ServicePool.mem_names_registered calls name), hcount⟩

end MTRpc
