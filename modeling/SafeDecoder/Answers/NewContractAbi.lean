import SafeDecoder.Data.ReferencePackages
import SafeDecoder.Decoder.Endpoint
import Mathlib.Logic.Relation

/-! # A contract that gets its ABI while the service is running

The two caches never expire, so a request made before the contract had its ABI
can leave an answer behind. From a moment at which neither cache holds one, every
later request for the contract is decoded with the stored ABI.
-/
namespace SafeDecoder.NewContractAbi
open Effects SelectorIndex
variable {L : Externals} {C : Caches} {a : String} {c : Int} {A : Json}

/-- The call that the endpoint makes for a contract. -/
def callKey (a : String) (c : Int) : CallKey := ⟨.str a,some c,.positional⟩

/-- The row of the contract has the ABI `A`. -/
structure HoldsAbi (L : Externals) (a : String) (c : Int) (A : Json) (db : Db) : Prop where
  fits : fitsBigInt c
  row : ∃ r ∈ db.contracts, L.addressBytes (.str a) = .ok r.address ∧ r.chainId = c ∧
    ∃ q, r.abiId.bind db.abiById = some q ∧ q.abiJson = A

/-- Neither cache holds an answer for the contract. -/
structure Unanswered (a : String) (c : Int) (s : Service C) : Prop where
  abi : C.abi.find s.contractAbi (callKey a c) = none
  selectors : C.selectors.find s.contractAbiSelectors (callKey a c) = none

/-- Reloads complete or are cut short before the cursor moves, and the ABIs that
become visible have ids above the cursor. -/
def orderly (L : Externals) (C : Caches) : Rules L C where
  loads failure q s := failsEarly failure ∨ (failure = none ∧ ∃ t, Completes L q s t)
  changes db db' s := ∀ r ∈ db'.abis, r ∈ db.abis ∨ ∀ n, s.lastAbiId = some n → n < r.id

/-- Besides that, the row of the contract keeps its ABI. -/
def unchanged (L : Externals) (C : Caches) (a : String) (c : Int) (A : Json) : Rules L C where
  loads := (orderly L C).loads
  changes db db' s := (orderly L C).changes db db' s ∧ HoldsAbi L a c A db'

section Index

/-- The lock is free, and the table up to the cursor is in the index. -/
structure Loaded (L : Externals) (w : Db × Service C) : Prop where
  lock : w.2.lockLoadNewAbis = false
  index : ∀ n, w.2.lastAbiId = some n → ∀ r ∈ w.1.abis, r.id ≤ n →
    ∀ k ∈ selectors L r.abiJson, k ∈ w.2.fnSelectorsWithAbis

theorem Loaded.steady {db : Db} {P : AddressKey → Prop} {s t : Service C} (h : Loaded L (db,s))
    (ht : Service.Steady L db P s t) : Loaded L (db,t) := by
  refine ⟨ht.lock.trans h.lock,?_⟩
  rw [ht.lastAbiId, ht.index]
  exact h.index

theorem Loaded.completes {db : Db} {order : List AbiRow} {s t : Service C} (h : Loaded L (db,s))
    (ho : IsRelevanceOrder db.abis order)
    (ht : Completes L (AbiQueries.ofTable db.abis order) s t) : Loaded L (db,t) := by
  refine ⟨?_,fun n _ r hr _ k hk => ht.mem_of_row ho h.index hr hk⟩
  obtain ⟨hlock,_,rfl⟩ := completes_iff.mp ht
  exact hlock

theorem loaded_init {db : Db} {order : List AbiRow} {s : Service C}
    (ho : IsRelevanceOrder db.abis order)
    (h : init L (getLastInsertedId db.abis) (order.map AbiRow.abiJson) = .ok s) :
    Loaded L (db,s) := by
  obtain ⟨_,_,rfl⟩ := init_eq_ok_iff.mp h
  refine ⟨rfl,fun n _ r hr _ k hk => ?_⟩
  exact (Dict.mem_mergeLast (selectors L)).mpr
    (Or.inr ⟨r.abiJson,List.mem_map_of_mem (ho.1.mem_iff.mpr hr),hk⟩)

/-- What one orderly step preserves. -/
theorem loaded_step {w w' : Db × Service C} (step : SessionStep (orderly L C) w w')
    (h : Loaded L w) : Loaded L w' := by
  cases step with
  | @load db s failure order ho hok =>
    rcases hok with hearly | ⟨rfl,t,ht⟩
    · rw [loadNewAbis_finalState _ h.lock, if_pos hearly]
      exact h
    · obtain ⟨k,hk⟩ := ht.loadNewAbis
      rw [finalState_of_ok hk]
      exact h.completes ho ht
  | decode n data address chainId =>
    exact h.steady (getDataDecoded_steady n data address chainId _)
  | accuracy data address chainId =>
    exact h.steady (getDecodingAccuracy_steady data address chainId _)
  | @change db db' s hok =>
    refine ⟨h.lock,fun n hn r hr hrn k hk => ?_⟩
    rcases hok r hr with hold | hnew
    · exact h.index n hn r hold hrn k hk
    · have hlt := hnew n hn
      omega

theorem session_loaded {w : Db × Service C} (h : Session (orderly L C) w) : Loaded L w := by
  induction h with
  | init ho hinit => exact loaded_init ho hinit
  | step _ hstep ih => exact loaded_step hstep ih

end Index

section Answers

/-- What the caches say about the contract, if anything, is its ABI. -/
structure Sees (L : Externals) (a : String) (c : Int) (A : Json) (s : Service C) : Prop where
  abi : C.abi.Coherent (fun k => k = callKey a c) (fun _ => Except.ok (ε := PyError) (some A))
    s.contractAbi
  selectors : C.selectors.Coherent (fun k => k = callKey a c)
    (fun _ => Except.ok (ε := PyError) (some (SelectorIndex.selectors L A))) s.contractAbiSelectors

theorem Unanswered.sees {s : Service C} (h : Unanswered a c s) : Sees L a c A s := by
  constructor
  · rintro k v rfl hv
    rw [h.abi] at hv
    cases hv
  · rintro k v rfl hv
    rw [h.selectors] at hv
    cases hv

variable {db : Db} (holds : HoldsAbi L a c A db) (ht : A.truthy)
include holds ht

theorem query_holds : queryContractAbi L db (.str a) (some c) = .ok (some A) := by
  obtain ⟨r,hr,haddress,rfl,q,hq,rfl⟩ := holds.row
  rw [queryContractAbi, haddress]
  exact db.getAbiByContractAddress_row hr hq holds.fits ht

theorem getContractAbi_sees (style : CallStyle) (k : AddressKey) (chainId : Option Int) :
    Agrees ((⟨k,chainId,style⟩ : CallKey) = callKey a c) (Sees (C := C) L a c A)
      (getContractAbi L db style k chainId) (.ok (some A)) := by
  apply MemoTable.call_agrees (fun k => k = callKey a c) (fun _ => Except.ok (some A))
    (k := ⟨k,chainId,style⟩)
  · exact fun s hs => hs.abi
  · exact fun s t hs ht => ⟨ht,hs.selectors⟩
  · apply (Agrees.lift _).congr
    intro hk
    cases hk
    exact query_holds holds ht

variable (hl : Loadable L A)
include hl

theorem contractSelectors_sees (k : AddressKey) (chainId : Option Int) :
    Agrees ((⟨k,chainId,.positional⟩ : CallKey) = callKey a c) (Sees (C := C) L a c A)
      (getContractAbiSelectorsWithFunctions L db k chainId) (.ok (some (selectors L A))) := by
  have habi := getContractAbi_sees (C := C) holds ht .positional k
  apply MemoTable.call_agrees (fun k => k = callKey a c)
    (fun _ => Except.ok (some (selectors L A))) (k := ⟨k,chainId,.positional⟩)
  · exact fun s hs => hs.selectors
  · exact fun s t hs ht => ⟨hs.abi,ht⟩
  · by_cases hk : (⟨k,chainId,.positional⟩ : CallKey) = callKey a c
    · -- the ABI of the chain itself is found, so no other chain is asked
      refine Triple.bind ((habi chainId).mono (fun _ h => h hk) fun e h => ?_) fun abi h => ?_
      · cases h hk
      · cases h
        have hany : (!Option.any Json.truthy (some A) && chainId.isSome) = false := by
          rw [Option.any_some, ht]
          rfl
        refine Triple.bind (P := fun abi => abi = some A) ?_ fun abi habi => ?_
        · rw [hany]
          exact Triple.pure rfl
        · rw [habi, Option.filter_some, if_pos ht]
          simp only [hl.generate]
          exact Triple.pure fun _ => rfl
    · have hkeeps : Keeps (Sees (C := C) L a c A)
          (contractSelectorsWith L (getContractAbi L db .positional k) chainId) :=
        (contractSelectorsWith_rel (agreesRel False _) (g := fun _ => .ok none)
          (fun c' => (habi c').keeps.agrees _) chainId).keeps
      exact (hkeeps.agrees _).weaken fun h => hk h

/-- A request for the contract resolves a selector of its ABI by that ABI. -/
theorem getAbiFunction_sees {s : Service C} (hs : Sees L a c A s) {data : Bytes} {f : Json}
    (hto : PyVal.truthy (.str a)) (hk : selectorOf data ∈ s.fnSelectorsWithAbis)
    (hf : (selectors L A).lookup (selectorOf data) = some f) :
    ∃ u, getAbiFunction L db data (some (.str a)) (some c) s = .ok (some f) u := by
  obtain ⟨general,hg⟩ := Option.isSome_iff_exists.mp (AList.lookup_isSome.mpr hk)
  obtain ⟨u,_,hu⟩ := (contractSelectors_sees holds ht hl (.str a) (some c)).ok rfl hs
  refine ⟨u,?_⟩
  change abiFunctionWith s.fnSelectorsWithAbis (getContractAbiSelectorsWithFunctions L db) data
    (some (.str a)) (some c) s = _
  rw [abiFunctionWith, hg, Option.filter_some, if_pos hto]
  change (getContractAbiSelectorsWithFunctions L db (.str a) (some c) >>= _) s = _
  rw [run_bind_ok hu]
  change EStateM.Result.ok (some (((selectors L A).lookup (selectorOf data)).getD general)) u = _
  rw [hf]
  rfl

end Answers

section Runs

/-- What a step preserves while the row of the contract keeps its ABI. -/
theorem sees_step {w w' : Db × Service C} (step : SessionStep (unchanged L C a c A) w w')
    (hready : w.2.Ready L) (ht : A.truthy) (hl : Loadable L A)
    (h : HoldsAbi L a c A w.1 ∧ Sees L a c A w.2) :
    HoldsAbi L a c A w'.1 ∧ Sees L a c A w'.2 := by
  obtain ⟨holds,hs⟩ := h
  cases step with
  | @load db s failure order ho hok =>
    obtain ⟨_,habi,hsel,_,_⟩ := loadNewAbis_keeps (L := L) failure
      (AbiQueries.ofTable db.abis order) hready.lock
    exact ⟨holds,habi ▸ hs.abi,hsel ▸ hs.selectors⟩
  | decode n data address chainId =>
    refine ⟨holds,?_⟩
    exact (getDataDecoded_keeps (fun k c' => (contractSelectors_sees holds ht hl k c').keeps) n data
      address chainId).finalState hs
  | accuracy data address chainId =>
    refine ⟨holds,?_⟩
    exact (getDecodingAccuracy_keeps
      (fun style k c' => (getContractAbi_sees holds ht style k c').keeps) data address
      chainId).finalState hs
  | change hok => exact ⟨hok.2,hs⟩

theorem orderly_of_unchanged {w w' : Db × Service C}
    (step : SessionStep (unchanged L C a c A) w w') : SessionStep (orderly L C) w w' := by
  cases step with
  | load ho hok => exact SessionStep.load ho hok
  | decode n data address chainId => exact SessionStep.decode n data address chainId
  | accuracy data address chainId => exact SessionStep.accuracy data address chainId
  | change hok => exact SessionStep.change hok.1

/-- What a run preserves from a moment at which neither cache has an answer. -/
theorem sees_run {start now : Db × Service C} (session : Session (orderly L C) start)
    (ht : A.truthy) (hl : Loadable L A) (holds : HoldsAbi L a c A start.1)
    (unanswered : Unanswered a c start.2)
    (later : Relation.ReflTransGen (SessionStep (unchanged L C a c A)) start now) :
    Session (orderly L C) now ∧ HoldsAbi L a c A now.1 ∧ Sees L a c A now.2 := by
  induction later with
  | refl => exact ⟨session,holds,unanswered.sees⟩
  | tail _ hstep ih =>
    exact ⟨ih.1.step (orderly_of_unchanged hstep),sees_step hstep ih.1.ready ht hl ih.2⟩

/-- From a moment at which the contract has the ABI and neither cache holds an
answer, every request for it is decoded with the function of that ABI, whatever
was asked in between. -/
theorem request_uses_stored_abi {start now : Db × Service C}
    (session : Session (orderly L C) start) (holds : HoldsAbi L a c A start.1)
    (unanswered : Unanswered a c start.2)
    (later : Relation.ReflTransGen (SessionStep (unchanged L C a c A)) start now)
    {order : List AbiRow} (sorted : IsRelevanceOrder now.1.abis order) {t : Service C}
    (loads : Completes L (AbiQueries.ofTable now.1.abis order) now.2 t)
    {input : DataDecoderInput L} (hto : input.toAddress = some a) (hchain : input.chainId = some c)
    {data : Bytes} (hdata : L.hexstrToBytes input.data = .ok data) {f : Json}
    (hf : (selectors L A).lookup (selectorOf data) = some f) :
    (∃ u, getAbiFunction L now.1 data input.address input.chainId t = .ok (some f) u) ∧
      ∀ n d r u, dataDecoder L now.1 none (AbiQueries.ofTable now.1.abis order) n input now.2 =
          .ok (some (d,r)) u →
        f.getItem "name" = .ok d.method ∧ decodeArguments L f (data.drop 4) = .ok d.arguments := by
  have hk : selectorOf data ∈ selectors L A :=
    AList.lookup_isSome.mp (Option.isSome_of_eq_some hf)
  obtain ⟨ht,hl⟩ := of_mem_selectors hk
  obtain ⟨hsession,hholds,hsees⟩ := sees_run session ht hl holds unanswered later
  obtain ⟨k,hload⟩ := loads.loadNewAbis
  obtain ⟨_,habi,hsel,_,_⟩ := loadNewAbis_keeps (L := L) none
    (AbiQueries.ofTable now.1.abis order) hsession.ready.lock
  rw [finalState_of_ok hload] at habi hsel
  have hsees_t : Sees L a c A t := ⟨habi ▸ hsees.abi,hsel ▸ hsees.selectors⟩
  obtain ⟨r,_,_,_,q,hq,rfl⟩ := hholds.row
  obtain ⟨id,_,hid⟩ := Option.bind_eq_some_iff.mp hq
  have hindex : selectorOf data ∈ t.fnSelectorsWithAbis :=
    loads.mem_of_row sorted (session_loaded hsession).index (List.mem_of_find?_eq_some hid) hk
  have haddress : input.address = some (.str a) := by
    rw [DataDecoderInput.address, hto]
    rfl
  obtain ⟨u,hu⟩ := getAbiFunction_sees hholds ht hl hsees_t (input.truthy_address hto) hindex hf
  rw [haddress, hchain]
  refine ⟨⟨u,hu⟩,fun n d r' v hrun => ?_⟩
  obtain ⟨data',w,hdata',hdecoded,_⟩ := dataDecoder_eq_ok hrun
  rw [hdata] at hdata'
  cases hdata'
  rw [finalState_of_ok hload, haddress, hchain] at hdecoded
  obtain ⟨g,v',hg,hname,hargs⟩ := exists_function_of_decoded hdecoded
  rw [hu] at hg
  cases hg
  exact ⟨hname,hargs⟩

end Runs

section Histories
open Reference

/-- The contract 0x11…11 of chain 1, and the two ABIs with `approve`. -/
def approveDb (abiId : Option ℕ) : Db where
  sources := []
  abis := [⟨1,0,.arr [approveErc721],1⟩, ⟨2,0,.arr [approveErc20],1⟩]
  contracts := [⟨1,List.replicate 20 0x11,none,none,none,false,none,0,abiId,none,1⟩]
  abiIds := by decide
  contractKeys := by simp

def approveData : Bytes :=
  [0x09, 0x5e, 0xa7, 0xb3] ++ encodeAbi [.str "0x2222222222222222222222222222222222222222", .int 1]

theorem approve_toPattern : ∀ a, some "0x1111111111111111111111111111111111111111" = some a →
    isHexText a ∧ a.length = 42 := by
  intro a ha
  cases ha
  decide

theorem approve_checksummed : ∀ a, some "0x1111111111111111111111111111111111111111" = some a →
    packages.fastToChecksumAddress (.str a) = .ok (.str a) := fun _ _ => rfl

theorem approve_positiveChain : ∀ c : Int, some 1 = some c → 0 < c := by
  intro c hc
  cases hc
  decide

def approveRequest : DataDecoderInput packages where
  data := to0xHexStr approveData
  toAddress := some "0x1111111111111111111111111111111111111111"
  chainId := some 1
  dataPattern := isHexText_to0xHexStr approveData
  toPattern := approve_toPattern
  checksummed := approve_checksummed
  positiveChain := approve_positiveChain

/-- The service that starts on these tables, reading the second ABI first. -/
def approveService : Service Caches.leastRecentlyUsed :=
  Service.fresh (Dict.mergeLast (selectors packages) ∅ [.arr [approveErc20], .arr [approveErc721]])
    (Dict.mergeLast (selectors packages) ∅ [packages.multiSendAbi]) (some 2)

/-- What it becomes when the request is decoded before the contract has an ABI. -/
def askedService : Service Caches.leastRecentlyUsed :=
  finalState (getDataDecoded packages (approveDb none) 2 approveData approveRequest.address (some 1)
    approveService)

theorem approve_started (abiId : Option ℕ) :
    Session (orderly packages _) (approveDb abiId,approveService) := by
  have hperm : [(⟨2,0,.arr [approveErc20],1⟩ : AbiRow), ⟨1,0,.arr [approveErc721],1⟩].Perm
      (approveDb abiId).abis := List.Perm.swap _ _ _
  refine Session.init ⟨hperm,List.pairwise_pair.mpr (le_refl (0 : Int))⟩ ?_
  refine init_eq_ok_iff.mpr ⟨fun abi ha => ?_,⟨_,rfl⟩,rfl⟩
  rcases List.mem_pair.mp ha with rfl | rfl
  · exact ⟨_,rfl⟩
  · exact ⟨_,rfl⟩

theorem approve_holds : HoldsAbi packages "0x1111111111111111111111111111111111111111" 1
    (.arr [approveErc20]) (approveDb (some 2)) :=
  ⟨rfl,_,List.mem_singleton_self _,rfl,rfl,_,rfl,rfl⟩

/-- A request made before the contract has its ABI leaves an answer in the
caches, and the same request after that still gets the function of the index. -/
theorem not_uses_stored_abi_asked_before :
    Session (orderly packages _) (approveDb none,askedService) ∧
    SessionStep (orderly packages _) (approveDb none,askedService)
      (approveDb (some 2),askedService) ∧
    HoldsAbi packages "0x1111111111111111111111111111111111111111" 1 (.arr [approveErc20])
      (approveDb (some 2)) ∧
    Completes packages (AbiQueries.ofTable (approveDb (some 2)).abis (approveDb (some 2)).abis)
      askedService askedService ∧
    (selectors packages (.arr [approveErc20])).lookup (selectorOf approveData) =
      some approveErc20 ∧
    getAbiFunction packages (approveDb (some 2)) approveData approveRequest.address
      approveRequest.chainId askedService = .ok (some approveErc721) askedService ∧
    approveErc721 ≠ approveErc20 := by
  have hchange : (orderly packages Caches.leastRecentlyUsed).changes (approveDb none)
      (approveDb (some 2)) askedService := fun r hr => Or.inl hr
  refine ⟨?_,SessionStep.change hchange,approve_holds,?_,rfl,rfl,approveErc721_ne⟩
  · exact (approve_started none).step (SessionStep.decode 2 approveData approveRequest.address (some 1))
  · exact completes_nothing_pending rfl rfl

/-- What the service becomes when the same call data is decoded for another contract first. -/
def otherService : Service Caches.leastRecentlyUsed :=
  finalState (getDataDecoded packages (approveDb none) 2 approveData
    (some (.str "0x2222222222222222222222222222222222222222")) (some 1) approveService)

/-- The contract has its ABI and is then decoded once. -/
def decodedService : Service Caches.leastRecentlyUsed :=
  finalState (getDataDecoded packages (approveDb (some 2)) 2 approveData approveRequest.address (some 1)
    otherService)

/-- A later download names the contract. -/
def namedDb : Db :=
  { approveDb (some 2) with
    contracts :=
      [⟨1,List.replicate 20 0x11,some "Token",none,none,false,none,0,some 2,none,1⟩]
    contractKeys := by simp }

theorem named_holds : HoldsAbi packages "0x1111111111111111111111111111111111111111" 1
    (.arr [approveErc20]) namedDb :=
  ⟨rfl,_,List.mem_singleton_self _,rfl,rfl,_,rfl,rfl⟩

/-- Without the early request the stored ABI is used, whatever is asked before and after it is
stored. -/
theorem uses_stored_abi_approve :
    ∃ u, getAbiFunction packages namedDb approveData approveRequest.address
      approveRequest.chainId decodedService = .ok (some approveErc20) u := by
  have hother : Session (orderly packages _) (approveDb none,otherService) :=
    (approve_started none).step (.decode 2 approveData _ _)
  have hstart : Session (orderly packages _) (approveDb (some 2),otherService) :=
    hother.step (.change fun r hr => .inl hr)
  have hunanswered : Unanswered "0x1111111111111111111111111111111111111111" 1 otherService :=
    ⟨rfl,rfl⟩
  have hdecoded : SessionStep (unchanged packages Caches.leastRecentlyUsed
      "0x1111111111111111111111111111111111111111" 1 (.arr [approveErc20]))
      (approveDb (some 2),otherService) (approveDb (some 2),decodedService) := .decode 2 approveData _ _
  have hnamed : SessionStep (unchanged packages Caches.leastRecentlyUsed
      "0x1111111111111111111111111111111111111111" 1 (.arr [approveErc20]))
      (approveDb (some 2),decodedService) (namedDb,decodedService) :=
    .change ⟨fun r hr => .inl hr,named_holds⟩
  have ho : IsRelevanceOrder namedDb.abis namedDb.abis :=
    ⟨List.Perm.refl _,List.pairwise_pair.mpr (le_refl (0 : Int))⟩
  have hload : Completes packages (AbiQueries.ofTable namedDb.abis namedDb.abis) decodedService
      decodedService := completes_nothing_pending rfl rfl
  have hto : approveRequest.toAddress = some "0x1111111111111111111111111111111111111111" := rfl
  have hdata : packages.hexstrToBytes approveRequest.data = .ok approveData :=
    packages_hexstrToBytes approveData
  have hf : (selectors packages (.arr [approveErc20])).lookup (selectorOf approveData) =
      some approveErc20 := rfl
  exact (request_uses_stored_abi hstart approve_holds hunanswered
    ((Relation.ReflTransGen.single hdecoded).tail hnamed) ho hload hto rfl hdata hf).1

end Histories
end SafeDecoder.NewContractAbi
