import SafeDecoder.Decoder.SelectorIndex
import SafeDecoder.Library.MemoTable
import SafeDecoder.Storage.Tables

/-! # The decoder service: its state and its lookups

A lookup is written once over any monad with exceptions. The service runs it on
its two caches, and run on the tables directly it is the answer a service
without caches would give. While the caches are coherent with the database the
two agree, whatever the caches have dropped.
-/
namespace SafeDecoder
open Effects SelectorIndex

/-- `alru_cache` keeps positional and keyword calls apart. -/
inductive CallStyle
  | positional | keyword
  deriving DecidableEq, Repr

structure CallKey where
  address : AddressKey
  chainId : Option Int
  style : CallStyle
  deriving DecidableEq, Repr

/-- The caches of `get_contract_abi` and `get_contract_abi_selectors_with_functions`. -/
structure Caches where
  abi : MemoTable CallKey (Option Json)
  selectors : MemoTable CallKey (Option (Dict Bytes Json))

/-- `@alru_cache(maxsize=2048)` on both methods. -/
def Caches.leastRecentlyUsed : Caches :=
  ⟨MemoTable.leastRecentlyUsed _ _ 2048,MemoTable.leastRecentlyUsed _ _ 2048⟩

inductive DecodingAccuracy
  | fullMatch | partialMatch | onlyFunctionMatch | noMatch
  deriving DecidableEq, Repr

/-- The attributes of `DataDecoderService` that change, with its two caches. -/
structure Service (C : Caches) where
  fnSelectorsWithAbis : Dict Bytes Json
  multisendFnSelectorsWithAbis : Dict Bytes Json
  lastAbiId : Option ℕ
  lockLoadNewAbis : Bool
  contractAbi : C.abi.State
  contractAbiSelectors : C.selectors.State

abbrev Py (C : Caches) := EStateM PyError (Service C)

namespace Service
variable {C : Caches}

/-- A service that has just been built: its caches are empty and its lock is free. -/
def fresh (fnSelectorsWithAbis multisendFnSelectorsWithAbis : Dict Bytes Json)
    (lastAbiId : Option ℕ) : Service C :=
  ⟨fnSelectorsWithAbis,multisendFnSelectorsWithAbis,lastAbiId,false,C.abi.empty,C.selectors.empty⟩

def abiSlot : C.abi.Slot (Service C) :=
  ⟨Service.contractAbi,fun t s => { s with contractAbi := t }⟩

def selectorsSlot : C.selectors.Slot (Service C) :=
  ⟨Service.contractAbiSelectors,fun t s => { s with contractAbiSelectors := t }⟩

end Service

section Lookups
variable {m : Type → Type} [Monad m] [MonadExceptOf PyError m] (L : Externals)

/-- The body of `get_contract_abi_selectors_with_functions` over `get_contract_abi`. -/
def contractSelectorsWith (getContractAbi : Option Int → m (Option Json)) (chainId : Option Int) :
    m (Option (Dict Bytes Json)) := do
  let abi ← getContractAbi chainId
  let abi ← (if !abi.any Json.truthy && chainId.isSome then getContractAbi none else pure abi)
  match abi.filter Json.truthy with
  | some abi => some <$> fromExcept (generateSelectorsWithAbisFromAbi L abi)
  | none => pure none

/-- The body of `get_abi_function` over the selectors of a contract. -/
def abiFunctionWith (index : Dict Bytes Json)
    (getSelectors : AddressKey → Option Int → m (Option (Dict Bytes Json)))
    (data : Bytes) (address : Option PyVal) (chainId : Option Int) : m (Option Json) :=
  match index.lookup (selectorOf data) with
  | none => pure none
  | some general =>
    match address.filter PyVal.truthy with
    | none => pure (some general)
    | some address => do
      let key ← fromExcept (Externals.addressKey address)
      let specific ← getSelectors key chainId
      return some ((specific.bind fun d => d.lookup (selectorOf data)).getD general)

/-- The body of `get_decoding_accuracy` over `get_contract_abi`. -/
def decodingAccuracyWith (index : Dict Bytes Json)
    (getContractAbi : CallStyle → AddressKey → Option Int → m (Option Json))
    (data : Bytes) (address : Option PyVal) (chainId : Option Int) : m DecodingAccuracy :=
  if selectorOf data ∈ index then
    match address with
    | none => pure .onlyFunctionMatch
    | some address => do
      let key ← fromExcept (Externals.addressKey address)
      let full ← (match chainId with
        | some chain => Option.any Json.truthy <$> getContractAbi .keyword key (some chain)
        | none => pure false)
      if full then pure .fullMatch
      else do
        let found ← getContractAbi .positional key none
        pure (if found.any Json.truthy then .partialMatch else .onlyFunctionMatch)
  else pure .noMatch

end Lookups

section TwoMonads
variable {m m' : Type → Type} [Monad m] [MonadExceptOf PyError m] [Monad m']
  [MonadExceptOf PyError m'] (R : MonadRel PyError m m') {L : Externals}

theorem contractSelectorsWith_rel [LawfulMonad m] [LawfulMonad m']
    {f : Option Int → m (Option Json)} {g : Option Int → m' (Option Json)}
    (h : ∀ c, R.Rel (f c) (g c)) (chainId : Option Int) :
    R.Rel (contractSelectorsWith L f chainId) (contractSelectorsWith L g chainId) := by
  refine R.bind (h chainId) fun abi => ?_
  refine R.bind (R.ite (h none) (R.pure abi)) fun abi => ?_
  cases abi.filter Json.truthy with
  | none => exact R.pure none
  | some abi => exact R.map some (R.lift _)

theorem abiFunctionWith_rel [LawfulMonad m] [LawfulMonad m'] {index : Dict Bytes Json}
    {f : AddressKey → Option Int → m (Option (Dict Bytes Json))}
    {g : AddressKey → Option Int → m' (Option (Dict Bytes Json))} (data : Bytes)
    {address : Option PyVal}
    (h : ∀ a k, address = some a → Externals.addressKey a = .ok k → ∀ c, R.Rel (f k c) (g k c))
    (chainId : Option Int) :
    R.Rel (abiFunctionWith index f data address chainId)
      (abiFunctionWith index g data address chainId) := by
  unfold abiFunctionWith
  cases index.lookup (selectorOf data) with
  | none => exact R.pure none
  | some general =>
    cases hf : address.filter PyVal.truthy with
    | none => exact R.pure (some general)
    | some a =>
      refine R.lift_bind fun key hk => ?_
      exact R.bind (h a key (Option.filter_eq_some_iff.mp hf).1 hk chainId) fun specific => R.pure _

theorem decodingAccuracyWith_rel [LawfulMonad m] [LawfulMonad m'] {index : Dict Bytes Json}
    {f : CallStyle → AddressKey → Option Int → m (Option Json)}
    {g : CallStyle → AddressKey → Option Int → m' (Option Json)} (data : Bytes)
    {address : Option PyVal}
    (h : ∀ a k, address = some a → Externals.addressKey a = .ok k →
      ∀ s c, R.Rel (f s k c) (g s k c)) (chainId : Option Int) :
    R.Rel (decodingAccuracyWith index f data address chainId)
      (decodingAccuracyWith index g data address chainId) := by
  refine R.ite ?_ (R.pure _)
  cases address with
  | none => exact R.pure _
  | some a =>
    refine R.lift_bind fun key hk => ?_
    have hlookup := h a key rfl hk
    refine R.bind ?_ fun full => R.ite (R.pure _) ?_
    · cases chainId with
      | none => exact R.pure false
      | some chain => exact R.map _ (hlookup .keyword (some chain))
    · exact R.bind (hlookup .positional none) fun found => R.pure _

end TwoMonads

section Uncached
variable (L : Externals) (db : Db)

def queryContractAbi (address : AddressKey) (chainId : Option Int) :
    Except PyError (Option Json) := do
  db.getAbiByContractAddress (← L.addressBytes address) chainId

/-- The selectors that a contract lookup gives when nothing is cached. -/
def contractSelectors (address : AddressKey) (chainId : Option Int) :
    Except PyError (Option (Dict Bytes Json)) :=
  contractSelectorsWith L (queryContractAbi L db address) chainId

/-- The contract ABI that a lookup finds: the one for the chain, or else the one
of the first chain that has one. -/
def foundAbi (address : AddressKey) (chainId : Option Int) : Except PyError (Option Json) := do
  let abi ← queryContractAbi L db address chainId
  if !abi.any Json.truthy && chainId.isSome then queryContractAbi L db address none else pure abi

/-- The function that a selector resolves to when nothing is cached. -/
def resolve (index : Dict Bytes Json) (data : Bytes) (address : Option PyVal)
    (chainId : Option Int) : Except PyError (Option Json) :=
  abiFunctionWith index (contractSelectors L db) data address chainId

def accuracy (index : Dict Bytes Json) (data : Bytes) (address : Option PyVal)
    (chainId : Option Int) : Except PyError DecodingAccuracy :=
  decodingAccuracyWith index (fun _ => queryContractAbi L db) data address chainId

variable {L db}

theorem mem_index_of_resolve {index : Dict Bytes Json} {data : Bytes} {address : Option PyVal}
    {chainId : Option Int} {f : Json} (h : resolve L db index data address chainId = .ok (some f)) :
    selectorOf data ∈ index := by
  by_contra hn
  rw [resolve, abiFunctionWith, AList.lookup_eq_none.mpr hn] at h
  cases h

theorem queryContractAbi_truthy {address : AddressKey} {chainId : Option Int} {abi : Json}
    (h : queryContractAbi L db address chainId = .ok (some abi)) : abi.truthy := by
  obtain ⟨b,_,h⟩ := bind_eq_ok_iff.mp h
  exact db.getAbiByContractAddress_truthy h

theorem foundAbi_truthy {address : AddressKey} {chainId : Option Int} {abi : Json}
    (h : foundAbi L db address chainId = .ok (some abi)) : abi.truthy := by
  obtain ⟨own,hown,h⟩ := bind_eq_ok_iff.mp h
  split at h
  · exact queryContractAbi_truthy h
  · cases h
    exact queryContractAbi_truthy hown

/-- The ABI of the chain itself has preference. -/
theorem foundAbi_own {address : AddressKey} {chainId : Option Int} {abi : Json}
    (h : queryContractAbi L db address chainId = .ok (some abi)) :
    foundAbi L db address chainId = .ok (some abi) := by
  rw [foundAbi, h]
  change (if !(Option.any Json.truthy (some abi)) && chainId.isSome then _ else _) = _
  rw [Option.any_some, queryContractAbi_truthy h]
  rfl

theorem foundAbi_other {address : AddressKey} {chain : Int}
    (h : queryContractAbi L db address (some chain) = .ok none) :
    foundAbi L db address (some chain) = queryContractAbi L db address none := by
  rw [foundAbi, h]
  rfl

theorem foundAbi_no_chain (address : AddressKey) :
    foundAbi L db address none = queryContractAbi L db address none := by
  rw [foundAbi]
  cases queryContractAbi L db address none with
  | error e => rfl
  | ok abi =>
    change (if !Option.any Json.truthy abi && false then _ else _) = _
    rw [Bool.and_false]
    rfl

/-- The selectors of a contract are those of the ABI that is found for it. -/
theorem contractSelectors_eq_ok_iff {address : AddressKey} {chainId : Option Int}
    {r : Option (Dict Bytes Json)} :
    contractSelectors L db address chainId = .ok r ↔
      (foundAbi L db address chainId = .ok none ∧ r = none) ∨
        ∃ abi, foundAbi L db address chainId = .ok (some abi) ∧ Loadable L abi ∧
          r = some (selectors L abi) := by
  have hbind : contractSelectors L db address chainId = foundAbi L db address chainId >>= fun abi =>
      match abi.filter Json.truthy with
      | some abi => some <$> fromExcept (generateSelectorsWithAbisFromAbi L abi)
      | none => pure none := by
    rw [contractSelectors, contractSelectorsWith, foundAbi, bind_assoc]
  rw [hbind, bind_eq_ok_iff]
  constructor
  · rintro ⟨abi,ha,h⟩
    cases abi with
    | none =>
      cases h
      exact Or.inl ⟨ha,rfl⟩
    | some abi =>
      rw [Option.filter_some, if_pos (foundAbi_truthy ha)] at h
      simp only [fromExcept_eq] at h
      cases hg : generateSelectorsWithAbisFromAbi L abi with
      | error e =>
        rw [hg] at h
        cases h
      | ok d =>
        rw [hg] at h
        cases h
        exact Or.inr ⟨abi,ha,⟨d,hg⟩,by rw [selectors_of_ok hg]⟩
  · rintro (⟨ha,rfl⟩ | ⟨abi,ha,hl,rfl⟩)
    · exact ⟨none,ha,rfl⟩
    · refine ⟨some abi,ha,?_⟩
      rw [Option.filter_some, if_pos (foundAbi_truthy ha)]
      simp only [hl.generate]
      rfl

end Uncached

section Methods
variable (L : Externals) {C : Caches} (db : Db)

def getContractAbi (style : CallStyle) (address : AddressKey) (chainId : Option Int) :
    Py C (Option Json) :=
  MemoTable.call Service.abiSlot ⟨address,chainId,style⟩
    (fromExcept (queryContractAbi L db address chainId))

def getContractAbiSelectorsWithFunctions (address : AddressKey) (chainId : Option Int) :
    Py C (Option (Dict Bytes Json)) :=
  MemoTable.call Service.selectorsSlot ⟨address,chainId,.positional⟩
    (contractSelectorsWith L (getContractAbi L db .positional address) chainId)

def getAbiFunction (data : Bytes) (address : Option PyVal) (chainId : Option Int) :
    Py C (Option Json) := do
  let s ← get
  abiFunctionWith s.fnSelectorsWithAbis (getContractAbiSelectorsWithFunctions L db) data address
    chainId

def getDecodingAccuracy (data : Bytes) (address : Option PyVal) (chainId : Option Int) :
    Py C DecodingAccuracy := do
  let s ← get
  decodingAccuracyWith s.fnSelectorsWithAbis (getContractAbi L db) data address chainId

end Methods

section Coherence
variable (L : Externals) {C : Caches} (db : Db) (P : AddressKey → Prop)

/-- Every cached answer about an address of `P` is the one the database gives. -/
structure Service.Coherent (s : Service C) : Prop where
  abi : C.abi.Coherent (fun k => P k.address) (fun k => queryContractAbi L db k.address k.chainId)
    s.contractAbi
  selectors : C.selectors.Coherent (fun k => P k.address)
    (fun k => contractSelectors L db k.address k.chainId) s.contractAbiSelectors

/-- The states that lookups reach from `s₀`: only the caches change and stay coherent. -/
structure Service.Steady (s₀ s : Service C) : Prop where
  index : s.fnSelectorsWithAbis = s₀.fnSelectorsWithAbis
  multisend : s.multisendFnSelectorsWithAbis = s₀.multisendFnSelectorsWithAbis
  lastAbiId : s.lastAbiId = s₀.lastAbiId
  lock : s.lockLoadNewAbis = s₀.lockLoadNewAbis
  coherent : s.Coherent L db P

variable {L db P}

theorem Service.fresh_coherent (index multisend : Dict Bytes Json) (lastAbiId : Option ℕ) :
    (Service.fresh index multisend lastAbiId : Service C).Coherent L db P :=
  ⟨MemoTable.Coherent.empty _ _,MemoTable.Coherent.empty _ _⟩

theorem Service.coherent_nowhere (s : Service C) : s.Coherent L db fun _ => False :=
  ⟨fun _ _ h => h.elim,fun _ _ h => h.elim⟩

theorem Service.Coherent.steady {s : Service C} (h : s.Coherent L db P) :
    Service.Steady L db P s s := ⟨rfl,rfl,rfl,rfl,h⟩

variable {s₀ : Service C}

theorem getContractAbi_agrees (style : CallStyle) (address : AddressKey) (chainId : Option Int) :
    Agrees (P address) (Service.Steady L db P s₀) (getContractAbi L db style address chainId)
      (queryContractAbi L db address chainId) := by
  apply MemoTable.call_agrees (fun k : CallKey => P k.address)
    (fun k => queryContractAbi L db k.address k.chainId) (k := ⟨address,chainId,style⟩)
  · exact fun s hs => hs.coherent.abi
  · exact fun s t hs ht => ⟨hs.index,hs.multisend,hs.lastAbiId,hs.lock,ht,hs.coherent.selectors⟩
  · exact Agrees.lift _

theorem getContractAbiSelectorsWithFunctions_agrees (address : AddressKey) (chainId : Option Int) :
    Agrees (P address) (Service.Steady L db P s₀)
      (getContractAbiSelectorsWithFunctions L db address chainId)
      (contractSelectors L db address chainId) := by
  apply MemoTable.call_agrees (fun k : CallKey => P k.address)
    (fun k => contractSelectors L db k.address k.chainId)
    (k := ⟨address,chainId,.positional⟩)
  · exact fun s hs => hs.coherent.selectors
  · exact fun s t hs ht => ⟨hs.index,hs.multisend,hs.lastAbiId,hs.lock,hs.coherent.abi,ht⟩
  · exact contractSelectorsWith_rel (agreesRel _ _)
      (fun c => getContractAbi_agrees .positional address c) chainId

variable {p : Prop} {address : Option PyVal}

/-- The cached resolution of a selector is the one the tables give. -/
theorem getAbiFunction_agrees
    (h : p → ∀ a k, address = some a → Externals.addressKey a = .ok k → P k) (data : Bytes)
    (chainId : Option Int) :
    Agrees p (Service.Steady L db P s₀) (getAbiFunction L db data address chainId)
      (resolve L db s₀.fnSelectorsWithAbis data address chainId) := by
  refine Agrees.get_bind fun s hs => ?_
  rw [hs.index]
  refine abiFunctionWith_rel (agreesRel p _) data (fun a k ha hk c => ?_) chainId
  exact (getContractAbiSelectorsWithFunctions_agrees k c).weaken fun hp => h hp a k ha hk

theorem getDecodingAccuracy_agrees
    (h : p → ∀ a k, address = some a → Externals.addressKey a = .ok k → P k) (data : Bytes)
    (chainId : Option Int) :
    Agrees p (Service.Steady L db P s₀) (getDecodingAccuracy L db data address chainId)
      (accuracy L db s₀.fnSelectorsWithAbis data address chainId) := by
  refine Agrees.get_bind fun s hs => ?_
  rw [hs.index]
  refine decodingAccuracyWith_rel (agreesRel p _) data (fun a k ha hk style c => ?_) chainId
  exact (getContractAbi_agrees style k c).weaken fun hp => h hp a k ha hk

/-- Whatever is cached, the accuracy changes the caches only. -/
theorem getDecodingAccuracy_steady (data : Bytes) (address : Option PyVal) (chainId : Option Int)
    (s : Service C) :
    Service.Steady L db (fun _ => False) s
      (finalState (getDecodingAccuracy L db data address chainId s)) :=
  (getDecodingAccuracy_agrees False.elim data chainId).finalState (Service.coherent_nowhere s).steady

end Coherence

section Keeping
variable {L : Externals} {C : Caches} {db : Db} {I : Service C → Prop}

theorem getAbiFunction_keeps (h : ∀ k c, Keeps I (getContractAbiSelectorsWithFunctions L db k c))
    (data : Bytes) (address : Option PyVal) (chainId : Option Int) :
    Keeps I (getAbiFunction L db data address chainId) := by
  refine Triple.get_bind fun s hs => ?_
  exact (abiFunctionWith_rel (agreesRel False I) (g := fun _ _ => .ok none) data
    (fun a k _ _ c => (h k c).agrees _) chainId).keeps

theorem getDecodingAccuracy_keeps (h : ∀ style k c, Keeps I (getContractAbi L db style k c))
    (data : Bytes) (address : Option PyVal) (chainId : Option Int) :
    Keeps I (getDecodingAccuracy L db data address chainId) := by
  refine Triple.get_bind fun s hs => ?_
  exact (decodingAccuracyWith_rel (agreesRel False I) (g := fun _ _ _ => .ok none) data
    (fun a k _ _ style c => (h style k c).agrees _) chainId).keeps

end Keeping
end SafeDecoder
