import SafeDecoder.Data.ReferencePackages
import SafeDecoder.Decoder.Endpoint

/-! # The reported accuracy and the function that was used

The function comes from the ABI of the contract only if that ABI defines the
selector, while the accuracy asks only whether the contract has an ABI. Where no
change of the database has made a cached answer untrue, the two agree exactly when
the ABI that is found defines the selector.
-/
namespace SafeDecoder.Accuracy
open Effects SelectorIndex
variable {L : Externals} {C : Caches} {db : Db} {index : Dict Bytes Json} {data : Bytes}

/-- `f` is one of the entries of the document. -/
def IsEntry (f abi : Json) : Prop := ∃ entries, abi.iter = .ok entries ∧ f ∈ entries

/-- Every contract ABI that the lookup finds defines the selector. -/
def DefinesSelector (L : Externals) (db : Db) (data : Bytes) (address : Option String)
    (chainId : Option Int) : Prop :=
  ∀ a abi, address = some a → foundAbi L db (.str a) chainId = .ok (some abi) →
    selectorOf data ∈ selectors L abi

/-- No contract lookup gave the function: it was taken from the general index. -/
def FromIndex (L : Externals) (db : Db) (data : Bytes) (address : Option String)
    (chainId : Option Int) : Prop :=
  ∀ a d, address = some a → contractSelectors L db (.str a) chainId = .ok (some d) →
    selectorOf data ∉ d

/-- The accuracy says where the function `f` comes from. -/
structure AccuracyAgrees (L : Externals) (db : Db) (data : Bytes) (address : Option String)
    (chainId : Option Int) (f : Json) (accuracy : DecodingAccuracy) : Prop where
  full : accuracy = .fullMatch → ∃ a c abi, address = some a ∧ chainId = some c ∧
    queryContractAbi L db (.str a) (some c) = .ok (some abi) ∧ IsEntry f abi
  sameAddress : accuracy = .partialMatch → ∃ a, address = some a ∧
    (∃ chain abi, queryContractAbi L db (.str a) chain = .ok (some abi) ∧ IsEntry f abi) ∧
      ∀ c abi, chainId = some c → queryContractAbi L db (.str a) (some c) = .ok (some abi) →
        ¬ IsEntry f abi
  general : accuracy = .onlyFunctionMatch ↔ FromIndex L db data address chainId
  found : accuracy ≠ .noMatch

theorem accuracy_no_address (h : selectorOf data ∈ index) (chainId : Option Int) :
    accuracy L db index data none chainId = .ok .onlyFunctionMatch := by
  rw [accuracy, decodingAccuracyWith, if_pos h]
  rfl

/-- What `get_decoding_accuracy` looks at: the ABI of the chain, then that of any chain. -/
theorem accuracy_cases {a : String} {chainId : Option Int} {r : DecodingAccuracy}
    (hin : selectorOf data ∈ index)
    (h : accuracy L db index data (some (.str a)) chainId = .ok r) :
    (∃ c abi, chainId = some c ∧ queryContractAbi L db (.str a) (some c) = .ok (some abi) ∧
        r = .fullMatch) ∨
      ((∀ c, chainId = some c → queryContractAbi L db (.str a) (some c) = .ok none) ∧
        ∃ other, queryContractAbi L db (.str a) none = .ok other ∧
          r = if other.isSome then .partialMatch else .onlyFunctionMatch) := by
  rw [accuracy, decodingAccuracyWith, if_pos hin] at h
  have hother : ∀ {r}, (do
      let found ← queryContractAbi L db (.str a) none
      pure (if found.any Json.truthy then DecodingAccuracy.partialMatch else .onlyFunctionMatch)) =
        Except.ok r → ∃ other, queryContractAbi L db (.str a) none = .ok other ∧
          r = if other.isSome then .partialMatch else .onlyFunctionMatch := by
    intro r hr
    obtain ⟨other,ho,hr⟩ := bind_eq_ok_iff.mp hr
    refine ⟨other,ho,?_⟩
    cases other with
    | none => exact (Except.ok.inj hr).symm
    | some abi =>
      rw [Option.any_some, queryContractAbi_truthy ho] at hr
      exact (Except.ok.inj hr).symm
  cases chainId with
  | none => exact Or.inr ⟨fun c hc => (nomatch hc),hother h⟩
  | some c =>
    obtain ⟨key,hkey,h⟩ := bind_eq_ok_iff.mp h
    cases hkey
    obtain ⟨full,hfull,h⟩ := bind_eq_ok_iff.mp h
    cases hown : queryContractAbi L db (.str a) (some c) with
    | error e =>
      simp only [hown] at hfull
      cases hfull
    | ok own =>
      simp only [hown] at hfull
      cases hfull
      cases own with
      | none => exact Or.inr ⟨fun c' hc => by rw [← Option.some.inj hc, hown],hother h⟩
      | some abi =>
        rw [Option.any_some, queryContractAbi_truthy hown, if_pos rfl] at h
        exact Or.inl ⟨c,abi,rfl,hown,(Except.ok.inj h).symm⟩

/-- The function that is used: the one of the contract ABI if that defines the
selector, and otherwise the one of the index. -/
theorem resolve_cases {a : String} (ha : PyVal.truthy (.str a)) {chainId : Option Int} {f : Json}
    (h : resolve L db index data (some (.str a)) chainId = .ok (some f)) :
    ∃ general, index.lookup (selectorOf data) = some general ∧
      ((foundAbi L db (.str a) chainId = .ok none ∧ f = general) ∨
        ∃ abi, foundAbi L db (.str a) chainId = .ok (some abi) ∧ Loadable L abi ∧
          f = ((selectors L abi).lookup (selectorOf data)).getD general) := by
  rw [resolve, abiFunctionWith] at h
  cases hg : index.lookup (selectorOf data) with
  | none =>
    rw [hg] at h
    cases h
  | some general =>
    rw [hg, Option.filter_some, if_pos ha] at h
    obtain ⟨key,hkey,h⟩ := bind_eq_ok_iff.mp h
    cases hkey
    obtain ⟨specific,hs,h⟩ := bind_eq_ok_iff.mp h
    refine ⟨general,rfl,?_⟩
    rcases contractSelectors_eq_ok_iff.mp hs with ⟨hnone,rfl⟩ | ⟨abi,hfound,hl,rfl⟩
    · exact Or.inl ⟨hnone,(Option.some.inj (Except.ok.inj h)).symm⟩
    · exact Or.inr ⟨abi,hfound,hl,(Option.some.inj (Except.ok.inj h)).symm⟩

theorem fromIndex_of_none {a : String} {chainId : Option Int}
    (h : foundAbi L db (.str a) chainId = .ok none) :
    FromIndex L db data (some a) chainId := by
  rintro a' d ha hd
  cases ha
  rcases contractSelectors_eq_ok_iff.mp hd with ⟨_,hr⟩ | ⟨abi,hfound,_,_⟩
  · cases hr
  · rw [h] at hfound
    cases hfound

theorem fromIndex_iff {a : String} {chainId : Option Int} {abi : Json} (hl : Loadable L abi)
    (h : foundAbi L db (.str a) chainId = .ok (some abi)) :
    FromIndex L db data (some a) chainId ↔ selectorOf data ∉ selectors L abi := by
  constructor
  · intro hf
    exact hf a _ rfl (contractSelectors_eq_ok_iff.mpr (Or.inr ⟨abi,h,hl,rfl⟩))
  · rintro hn a' d ha hd
    cases ha
    rcases contractSelectors_eq_ok_iff.mp hd with ⟨hnone,_⟩ | ⟨abi',hfound,_,hr⟩
    · rw [h] at hnone
      cases hnone
    · rw [h] at hfound
      cases hfound
      cases hr
      exact hn

/-- For a loadable ABI, an entry with the selector of the index is an entry of
its map. -/
theorem mem_selectors_of_isEntry {abi f : Json} (hl : Loadable L abi) (hf : isFunctionEntry f)
    (hk : L.functionAbiTo4byteSelector f = .ok (selectorOf data)) (h : IsEntry f abi) :
    selectorOf data ∈ selectors L abi := by
  obtain ⟨entries,he,hm⟩ := h
  exact hl.mem_selectors he hm hf hk

theorem isEntry_of_lookup {abi f : Json} {k : Bytes} (h : (selectors L abi).lookup k = some f) :
    IsEntry f abi := by
  obtain ⟨_,_,entries,he,hm⟩ := selectors_lookup h
  exact ⟨entries,he,hm⟩

/-- The function that is used is an entry of the ABI exactly when the ABI defines
the selector, as the function of the index has it too. -/
theorem isEntry_getD_iff {abi general : Json} (hl : Loadable L abi)
    (hg : isFunctionEntry general ∧ L.functionAbiTo4byteSelector general = .ok (selectorOf data)) :
    IsEntry (((selectors L abi).lookup (selectorOf data)).getD general) abi ↔
      selectorOf data ∈ selectors L abi := by
  constructor
  · intro he
    by_contra hn
    rw [AList.lookup_eq_none.mpr hn] at he
    exact hn (mem_selectors_of_isEntry hl hg.1 hg.2 he)
  · intro hk
    obtain ⟨g,hgk⟩ := Option.isSome_iff_exists.mp (AList.lookup_isSome.mpr hk)
    rw [hgk]
    exact isEntry_of_lookup hgk

theorem definesSelector_iff {a : String} {chainId : Option Int} {abi : Json}
    (hfound : foundAbi L db (.str a) chainId = .ok (some abi)) :
    DefinesSelector L db data (some a) chainId ↔ selectorOf data ∈ selectors L abi := by
  constructor
  · exact fun h => h a abi rfl hfound
  · rintro h a' abi' ha hfound'
    cases ha
    rw [hfound] at hfound'
    cases hfound'
    exact h

/-- Without an ABI on its chain, the contract has the one of any chain. -/
theorem foundAbi_unowned {a : String} {chainId : Option Int}
    (h : ∀ c, chainId = some c → queryContractAbi L db (.str a) (some c) = .ok none) :
    foundAbi L db (.str a) chainId = queryContractAbi L db (.str a) none := by
  cases chainId with
  | none => exact foundAbi_no_chain _
  | some c => exact foundAbi_other (h c rfl)

/-! The three answers, each for the case in which it is given. -/

theorem accuracyAgrees_general {address : Option String} {chainId : Option Int} {f : Json}
    (h : FromIndex L db data address chainId) :
    AccuracyAgrees L db data address chainId f .onlyFunctionMatch :=
  ⟨nofun,nofun,⟨fun _ => h,fun _ => rfl⟩,nofun⟩

theorem accuracyAgrees_full_iff {a : String} {c : Int} {abi f : Json} (hl : Loadable L abi)
    (hown : queryContractAbi L db (.str a) (some c) = .ok (some abi))
    (hentry : IsEntry f abi ↔ selectorOf data ∈ selectors L abi) :
    AccuracyAgrees L db data (some a) (some c) f .fullMatch ↔ selectorOf data ∈ selectors L abi := by
  constructor
  · intro h
    obtain ⟨a',c',abi',ha,hc,hq,he⟩ := h.full rfl
    cases ha
    cases hc
    rw [hown] at hq
    cases hq
    exact hentry.mp he
  · intro hk
    refine ⟨fun _ => ⟨a,c,abi,rfl,rfl,hown,hentry.mpr hk⟩,nofun,?_,nofun⟩
    rw [fromIndex_iff hl (foundAbi_own hown)]
    exact ⟨nofun,fun h => absurd hk h⟩

theorem accuracyAgrees_partial_iff {a : String} {chainId : Option Int} {abi f : Json}
    (hl : Loadable L abi)
    (hown : ∀ c, chainId = some c → queryContractAbi L db (.str a) (some c) = .ok none)
    (hother : queryContractAbi L db (.str a) none = .ok (some abi))
    (hentry : IsEntry f abi ↔ selectorOf data ∈ selectors L abi) :
    AccuracyAgrees L db data (some a) chainId f .partialMatch ↔
      selectorOf data ∈ selectors L abi := by
  have hfound := (foundAbi_unowned hown).trans hother
  constructor
  · intro h
    by_contra hn
    have honly := h.general.mpr ((fromIndex_iff hl hfound).mpr hn)
    cases honly
  · intro hk
    have habsent : ∀ c abi', chainId = some c →
        queryContractAbi L db (.str a) (some c) ≠ .ok (some abi') := by
      intro c abi' hc hq
      rw [hown c hc] at hq
      cases hq
    refine ⟨nofun,fun _ => ⟨a,rfl,⟨none,abi,hother,hentry.mpr hk⟩,?_⟩,?_,nofun⟩
    · exact fun c abi' hc hq => absurd hq (habsent c abi' hc)
    · rw [fromIndex_iff hl hfound]
      exact ⟨nofun,fun h => absurd hk h⟩

/-- For one request: the accuracy tells where the function comes from exactly
when the ABI found for the contract defines the selector. -/
theorem accuracyAgrees_iff (hvalid : IndexValid L index) {address : Option String}
    (haddress : ∀ a, address = some a → PyVal.truthy (.str a)) {chainId : Option Int} {f : Json}
    {r : DecodingAccuracy}
    (hf : resolve L db index data (address.map PyVal.str) chainId = .ok (some f))
    (hr : accuracy L db index data (address.map PyVal.str) chainId = .ok r) :
    AccuracyAgrees L db data address chainId f r ↔
      DefinesSelector L db data address chainId := by
  have hin := mem_index_of_resolve hf
  cases address with
  | none =>
    rw [Option.map_none, accuracy_no_address hin] at hr
    cases hr
    have hindex : FromIndex L db data none chainId := fun a d ha => nomatch ha
    exact ⟨fun _ a abi ha => (nomatch ha),fun _ => accuracyAgrees_general hindex⟩
  | some a =>
    obtain ⟨general,hg,hcases⟩ := resolve_cases (haddress a rfl) hf
    rcases hcases with ⟨hnone,rfl⟩ | ⟨abi,hfound,hl,rfl⟩
    · -- no ABI is found, so none can lack the selector
      have honly : r = .onlyFunctionMatch := by
        rcases accuracy_cases hin hr with ⟨c,abi,rfl,hown,_⟩ | ⟨hown,other,hother,rfl⟩
        · rw [foundAbi_own hown] at hnone
          cases hnone
        · rw [foundAbi_unowned hown, hother] at hnone
          cases hnone
          rfl
      subst honly
      refine ⟨fun _ a' abi ha hfound => ?_,fun _ => accuracyAgrees_general (fromIndex_of_none hnone)⟩
      cases ha
      rw [hnone] at hfound
      cases hfound
    · have hentry := isEntry_getD_iff hl (hvalid _ _ hg)
      rw [definesSelector_iff hfound]
      rcases accuracy_cases hin hr with ⟨c,own,rfl,hown,rfl⟩ | ⟨hown,other,hother,rfl⟩
      · rw [foundAbi_own hown] at hfound
        cases hfound
        exact accuracyAgrees_full_iff hl hown hentry
      · rw [foundAbi_unowned hown, hother] at hfound
        cases hfound
        exact accuracyAgrees_partial_iff hl hown hother hentry

section Runs

/-- What is cached for the addresses of `P` is as true of the second tables as of the first. -/
structure KeepsAnswers (L : Externals) (P : AddressKey → Prop) (db db' : Db) (s : Service C) : Prop where
  abi : ∀ k v, P k.address → C.abi.find s.contractAbi k = some v →
    queryContractAbi L db' k.address k.chainId = queryContractAbi L db k.address k.chainId
  selectors : ∀ k v, P k.address → C.selectors.find s.contractAbiSelectors k = some v →
    contractSelectors L db' k.address k.chainId = contractSelectors L db k.address k.chainId

/-- Sessions in which no change of the database makes an answer untrue that is cached. -/
def answersKept (L : Externals) (C : Caches) (P : AddressKey → Prop) : Rules L C where
  loads _ _ _ := True
  changes db db' s := KeepsAnswers L P db db' s

variable {P : AddressKey → Prop}

theorem KeepsAnswers.coherent {db' : Db} {s : Service C} (h : KeepsAnswers L P db db' s)
    (hs : s.Coherent L db P) : s.Coherent L db' P :=
  ⟨fun k v hk hv => (h.abi k v hk hv).trans (hs.abi k v hk hv),
    fun k v hk hv => (h.selectors k v hk hv).trans (hs.selectors k v hk hv)⟩

theorem coherent_load {s : Service C} (hs : s.Coherent L db P) (hready : s.Ready L)
    (failure : Option Failure) (q : AbiQueries) :
    (finalState (loadNewAbis L failure q s)).Coherent L db P := by
  obtain ⟨_,habi,hsel,_,_⟩ := loadNewAbis_keeps (L := L) failure q hready.lock
  exact ⟨habi ▸ hs.abi,hsel ▸ hs.selectors⟩

/-- What one step preserves. -/
theorem coherent_step {w w' : Db × Service C} (step : SessionStep (answersKept L C P) w w')
    (hready : w.2.Ready L) (h : w.2.Coherent L w.1 P) : w'.2.Coherent L w'.1 P := by
  cases step with
  | load sorted ok => exact coherent_load h hready _ _
  | decode n data address chainId =>
    exact ((getDataDecoded_agrees False.elim n data address chainId).finalState h.steady).coherent
  | accuracy data address chainId =>
    exact ((getDecodingAccuracy_agrees False.elim data chainId).finalState h.steady).coherent
  | change kept => exact kept.coherent h

/-- In such a session the caches never have an answer that the tables do not give. -/
theorem session_coherent {w : Db × Service C} (h : Session (answersKept L C P) w) :
    w.2.Coherent L w.1 P := by
  induction h with
  | init sorted started =>
    obtain ⟨_,_,rfl⟩ := init_eq_ok_iff.mp started
    exact Service.fresh_coherent _ _ _
  | step session hstep ih => exact coherent_step hstep session.ready ih

/-- The address of the request, as the caches know it. -/
def Asked (input : DataDecoderInput L) (k : AddressKey) : Prop :=
  ∃ a, input.toAddress = some a ∧ k = .str a

/-- After every run in which no change of the database makes a cached answer about the
requested address untrue: an answered request reports where its function comes from exactly
when the contract ABI that is found, if any, defines the selector. -/
theorem session_accuracyAgrees_iff {s t : Service C} {input : DataDecoderInput L}
    (session : Session (answersKept L C (Asked input)) (db,s)) {failure : Option Failure}
    {q : AbiQueries} {n : ℕ} {d : DataDecoded} {r : DecodingAccuracy}
    (answered : dataDecoder L db failure q n input s = .ok (some (d,r)) t) :
    ∃ data f u, L.hexstrToBytes input.data = .ok data ∧
      getAbiFunction L db data input.address input.chainId
        (finalState (loadNewAbis L failure q s)) = .ok (some f) u ∧
      f.getItem "name" = .ok d.method ∧
      (AccuracyAgrees L db data input.toAddress input.chainId f r ↔
        DefinesSelector L db data input.toAddress input.chainId) := by
  obtain ⟨data,v,hdata,hdecoded,haccuracy⟩ := dataDecoder_eq_ok answered
  obtain ⟨f,u,hf,hname,_⟩ := exists_function_of_decoded hdecoded
  refine ⟨data,f,u,hdata,hf,hname,?_⟩
  let s₁ := finalState (loadNewAbis L failure q s)
  have hready : s₁.Ready L := session.ready.load failure q
  have hs₁ : s₁.Coherent L db (Asked input) :=
    coherent_load (session_coherent session) session.ready failure q
  have hasked : ∀ a k, input.address = some a → Externals.addressKey a = .ok k → Asked input k := by
    intro a k ha hk
    obtain ⟨text,ht,rfl⟩ := Option.map_eq_some_iff.mp ha
    cases hk
    exact ⟨text,ht,rfl⟩
  have hresolve := ((getAbiFunction_agrees (fun _ => hasked) data input.chainId).of_ok hs₁.steady
    hf).2 trivial
  -- decoding changes the caches only, and keeps them current for this address
  have hv : Service.Steady L db (Asked input) s₁ v :=
    ((getDataDecoded_agrees False.elim n data input.address input.chainId).of_ok hs₁.steady
      hdecoded).1
  have hreported := ((getDecodingAccuracy_agrees (fun _ => hasked) data input.chainId).of_ok hv
    haccuracy).2 trivial
  exact accuracyAgrees_iff hready.index (fun a ha => input.truthy_address ha) hresolve hreported

end Runs

section Proxies
open Reference

/-- The contract 0x11…11 of chain 1 has the first ABI, and another ABI is stored. -/
def proxyDb (contractAbi otherAbi : Json) : Db where
  sources := []
  abis := [⟨1,0,contractAbi,1⟩, ⟨2,0,otherAbi,1⟩]
  contracts := [⟨1,List.replicate 20 0x11,none,none,none,false,none,0,some 1,none,1⟩]
  abiIds := by simp
  contractKeys := by simp

def pauseData : Bytes := [0x84, 0x56, 0xcb, 0x59]

def pauseRequest : DataDecoderInput packages where
  data := "0x8456cb59"
  toAddress := some "0x1111111111111111111111111111111111111111"
  chainId := some 1
  dataPattern := by decide
  toPattern := by
    intro a ha
    cases ha
    decide
  checksummed := fun _ _ => rfl
  positiveChain := by
    intro c hc
    cases hc
    decide

/-- A service that has been started on the two ABIs. -/
def proxyService (contractAbi otherAbi : Json) : Service Caches.leastRecentlyUsed :=
  Service.fresh (Dict.mergeLast (selectors packages) ∅ [contractAbi, otherAbi])
    (Dict.mergeLast (selectors packages) ∅ [packages.multiSendAbi]) (some 2)

theorem proxy_started {rules : Rules packages Caches.leastRecentlyUsed} {contractAbi otherAbi : Json}
    (hc : Loadable packages contractAbi) (ho : Loadable packages otherAbi) :
    Session rules (proxyDb contractAbi otherAbi,proxyService contractAbi otherAbi) := by
  have horder : IsRelevanceOrder (proxyDb contractAbi otherAbi).abis
      (proxyDb contractAbi otherAbi).abis :=
    ⟨List.Perm.refl _,List.pairwise_pair.mpr (le_refl (0 : Int))⟩
  refine Session.init horder (init_eq_ok_iff.mpr ⟨fun abi ha => ?_,⟨_,rfl⟩,rfl⟩)
  rcases List.mem_pair.mp ha with rfl | rfl
  · exact hc
  · exact ho

/-- The ABI stored for the contract lacks the selector: the function comes from
the index, and the answer is a full match. -/
theorem not_accuracyAgrees_proxy :
    let db := proxyDb (.arr [unpauseFunction]) (.arr [pauseFunction])
    ∃ (s t : Service Caches.leastRecentlyUsed) (d : DataDecoded),
      Session (Rules.any packages _) (db,s) ∧
      dataDecoder packages db none (AbiQueries.ofTable db.abis db.abis) 2 pauseRequest s =
        .ok (some (d,.fullMatch)) t ∧
      ∀ f, f.getItem "name" = .ok d.method → ¬ AccuracyAgrees packages db pauseData
        pauseRequest.toAddress pauseRequest.chainId f .fullMatch := by
  intro db
  obtain ⟨k,hload⟩ := (completes_nothing_pending (L := packages)
    (q := AbiQueries.ofTable db.abis db.abis)
    (s := proxyService (.arr [unpauseFunction]) (.arr [pauseFunction])) rfl rfl).loadNewAbis
  have hanswered : ∃ t, dataDecoder packages db none (AbiQueries.ofTable db.abis db.abis) 2 pauseRequest
      (proxyService (.arr [unpauseFunction]) (.arr [pauseFunction])) =
        .ok (some (⟨.str "pause",[]⟩,.fullMatch)) t :=
    dataDecoder_of_tables rfl (Service.fresh_coherent _ _ _) hload rfl rfl rfl
  obtain ⟨t,ht⟩ := hanswered
  refine ⟨_,t,_,proxy_started ⟨_,rfl⟩ ⟨_,rfl⟩,ht,fun f hname h => ?_⟩
  obtain ⟨a,c,abi,ha,hc,hq,entries,he,hm⟩ := h.full rfl
  cases ha
  cases hc
  cases hq
  cases he
  rw [List.mem_singleton.mp hm] at hname
  exact absurd (Json.str.inj (Except.ok.inj hname)) (by decide)

/-- The contract has the ABI with the function. -/
def pausableDb : Db := proxyDb (.arr [pauseFunction]) (.arr [unpauseFunction])

def decodedOnce : Service Caches.leastRecentlyUsed :=
  finalState (getDataDecoded packages pausableDb 2 pauseData pauseRequest.address (some 1)
    (proxyService (.arr [pauseFunction]) (.arr [unpauseFunction])))

/-- The service after it has decoded the call data once and told the accuracy. -/
def askedOnce : Service Caches.leastRecentlyUsed :=
  finalState (getDecodingAccuracy packages pausableDb pauseData pauseRequest.address (some 1) decodedOnce)

/-- Only the caches have changed. -/
theorem askedOnce_keeps (db : Db) : Service.Steady packages db (fun _ => False)
    (proxyService (.arr [pauseFunction]) (.arr [unpauseFunction])) askedOnce := by
  have hdecoded : Service.Steady packages pausableDb (fun _ => False)
      (proxyService (.arr [pauseFunction]) (.arr [unpauseFunction])) decodedOnce :=
    getDataDecoded_steady _ _ _ _ _
  have hasked : Service.Steady packages pausableDb (fun _ => False) decodedOnce askedOnce :=
    getDecodingAccuracy_steady _ _ _ _
  exact ⟨hasked.index.trans hdecoded.index,hasked.multisend.trans hdecoded.multisend,
    hasked.lastAbiId.trans hdecoded.lastAbiId,hasked.lock.trans hdecoded.lock,
    Service.coherent_nowhere _⟩

theorem laterAbis_nodup : (([⟨1,0,.arr [pauseFunction],1⟩, ⟨2,0,.arr [unpauseFunction],1⟩,
    ⟨3,5,.arr [pauseFunction],1⟩] : List AbiRow).map AbiRow.id).Nodup := by decide

/-- A third ABI is stored meanwhile, with another function of the same name in it. -/
def laterDb : Db :=
  { pausableDb with
    abis := [⟨1,0,.arr [pauseFunction],1⟩, ⟨2,0,.arr [unpauseFunction],1⟩, ⟨3,5,.arr [pauseFunction],1⟩]
    abiIds := laterAbis_nodup }

theorem kept_laterDb (P : AddressKey → Prop) : KeepsAnswers packages P pausableDb laterDb askedOnce :=
  ⟨fun _ _ _ _ => rfl,fun _ _ _ _ => rfl⟩

theorem later_session (P : AddressKey → Prop) :
    Session (answersKept packages _ P) (laterDb,askedOnce) := by
  have hstart : Session (answersKept packages _ P) (pausableDb,
      proxyService (.arr [pauseFunction]) (.arr [unpauseFunction])) :=
    proxy_started ⟨_,rfl⟩ ⟨_,rfl⟩
  have hdecoded := hstart.step (SessionStep.decode 2 pauseData pauseRequest.address (some 1))
  have hasked := hdecoded.step (SessionStep.accuracy pauseData pauseRequest.address (some 1))
  exact hasked.step (SessionStep.change (kept_laterDb P))

/-- The index after the third ABI has been loaded. -/
def laterIndex : Dict Bytes Json :=
  Dict.mergeFirst (selectors packages)
    (proxyService (.arr [pauseFunction]) (.arr [unpauseFunction])).fnSelectorsWithAbis
    [.arr [pauseFunction]]

/-- The third ABI is loaded, and the index keeps the function that it has. -/
theorem laterDb_reload : ∃ s₁, Completes packages (AbiQueries.ofTable laterDb.abis laterDb.abis) askedOnce s₁ ∧
    s₁.fnSelectorsWithAbis = laterIndex ∧
    s₁.multisendFnSelectorsWithAbis = Dict.mergeLast (selectors packages) ∅ [packages.multiSendAbi] := by
  have hkept := askedOnce_keeps laterDb
  have hpending : pendingAbis (AbiQueries.ofTable laterDb.abis laterDb.abis) askedOnce.lastAbiId =
      [.arr [pauseFunction]] := by
    rw [hkept.lastAbiId]
    rfl
  have hloadable : Loadable packages (.arr [pauseFunction]) := ⟨_,rfl⟩
  refine ⟨_,completes_iff.mpr ⟨hkept.lock,fun abi habi => ?_,rfl⟩,?_,hkept.multisend⟩
  · rw [hpending] at habi
    rw [List.mem_singleton.mp habi]
    exact hloadable
  · rw [Service.reloaded, hpending, laterIndex, ← hkept.index, loadedAbis_of_loadable]
    intro abi habi
    rw [List.mem_singleton.mp habi]
    exact hloadable

set_option maxRecDepth 20000 in
theorem laterDb_decoded : decodedFromTables packages laterDb
    (Dict.mergeLast (selectors packages) ∅ [packages.multiSendAbi]) laterIndex 2 pauseData
    pauseRequest.address (some 1) = .ok (some ⟨.str "pause",[]⟩) := rfl

set_option maxRecDepth 20000 in
theorem laterDb_accuracy : accuracy packages laterDb laterIndex pauseData pauseRequest.address (some 1) =
    .ok .fullMatch := rfl

/-- With an ABI that defines the selector the full match is one, also when the answer is cached. -/
theorem accuracyAgrees_pause :
    ∃ (t : Service Caches.leastRecentlyUsed) (d : DataDecoded) (f : Json),
      dataDecoder packages laterDb none (AbiQueries.ofTable laterDb.abis laterDb.abis) 2 pauseRequest
        askedOnce = .ok (some (d,.fullMatch)) t ∧
      f.getItem "name" = .ok d.method ∧ AccuracyAgrees packages laterDb pauseData
        pauseRequest.toAddress pauseRequest.chainId f .fullMatch := by
  obtain ⟨s₁,hreload,hindex,hmultisend⟩ := laterDb_reload
  obtain ⟨k,hload⟩ := hreload.loadNewAbis
  have hanswered : ∃ t, dataDecoder packages laterDb none (AbiQueries.ofTable laterDb.abis laterDb.abis)
      2 pauseRequest askedOnce = .ok (some (⟨.str "pause",[]⟩,.fullMatch)) t := by
    have hdata : packages.hexstrToBytes pauseRequest.data = .ok pauseData := rfl
    have hdecoded := laterDb_decoded
    have haccuracy := laterDb_accuracy
    rw [← hindex] at hdecoded haccuracy
    rw [← hmultisend] at hdecoded
    exact dataDecoder_of_tables (askedOnce_keeps laterDb).lock (session_coherent (later_session _)) hload
      hdata hdecoded haccuracy
  obtain ⟨t,ht⟩ := hanswered
  obtain ⟨data,f,u,hdata,_,hname,hiff⟩ := session_accuracyAgrees_iff (later_session _) ht
  cases hdata
  refine ⟨t,_,f,ht,hname,hiff.mpr fun a abi ha hfound => ?_⟩
  cases ha
  cases hfound
  decide

end Proxies
end SafeDecoder.Accuracy
