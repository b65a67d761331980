import SafeDecoder.Data.ReferencePackages
import SafeDecoder.Decoder.Service

/-! # Which ABI a selector is resolved in

The ABI of the contract on the chain comes first, the one on the lowest chain that
has an ABI stands in for a missing one, and the index takes what they leave. The
contracts at other addresses only matter through the index.
-/
namespace SafeDecoder.ResolutionOrder
open Effects SelectorIndex

section Tables

/-- The contract at the address has this ABI on the chain. -/
def HasAbi (db : Db) (b : Bytes) (chain : Int) (abi : Json) : Prop :=
  ∃ row ∈ db.contracts, row.key = (b,chain) ∧ ∃ r, row.abiId.bind db.abiById = some r ∧ r.abiJson = abi

/-- The ABI on the lowest chain among the contracts at the address that have one. -/
def IsLowestAbi (db : Db) (b : Bytes) (abi : Json) : Prop :=
  ∃ chain, HasAbi db b chain abi ∧ ∀ chain' abi', HasAbi db b chain' abi' → chain ≤ chain'

/-- The first ABI to be looked at, if there is one at the address. -/
def Preferred (db : Db) (b : Bytes) (chainId : Option Int) (abi : Json) : Prop :=
  (∃ chain, chainId = some chain ∧ HasAbi db b chain abi) ∨
    (∀ chain abi', chainId = some chain → ¬HasAbi db b chain abi') ∧ IsLowestAbi db b abi

/-- The two tables have the same ABIs at the address. -/
def SameAt (b : Bytes) (db db' : Db) : Prop :=
  ∀ chain abi, HasAbi db b chain abi ↔ HasAbi db' b chain abi

variable {db db' : Db} {b : Bytes} {chain : Int} {chainId : Option Int} {abi abi' : Json}

theorem SameAt.preferred (h : SameAt b db db') :
    Preferred db b chainId abi ↔ Preferred db' b chainId abi := by
  unfold Preferred IsLowestAbi
  simp only [h _ _]

theorem HasAbi.unique (h : HasAbi db b chain abi) (h' : HasAbi db b chain abi') : abi = abi' := by
  obtain ⟨row,hrow,hkey,r,hr,rfl⟩ := h
  obtain ⟨row',hrow',hkey',r',hr',rfl⟩ := h'
  have hsame := List.inj_on_of_nodup_map db.contractKeys hrow hrow' (hkey.trans hkey'.symm)
  rw [hsame, hr'] at hr
  cases hr
  rfl

theorem mem_contractAbis_iff {e : Int × Json} :
    e ∈ db.contractAbis b ↔ HasAbi db b e.1 e.2 := by
  rw [Db.contractAbis, List.mem_filterMap]
  constructor
  · rintro ⟨row,hrow,h⟩
    split at h
    · rename_i haddress
      obtain ⟨r,hr,rfl⟩ := Option.map_eq_some_iff.mp h
      exact ⟨row,hrow,Prod.ext haddress rfl,r,hr,rfl⟩
    · cases h
  · rintro ⟨row,hrow,hkey,r,hr,habi⟩
    have haddress : row.address = b := congrArg Prod.fst hkey
    have hchain : row.chainId = e.1 := congrArg Prod.snd hkey
    refine ⟨row,hrow,?_⟩
    rw [if_pos haddress, hr, Option.map_some, hchain, habi]

theorem HasAbi.stored (h : HasAbi db b chain abi) : ∃ r ∈ db.abis, r.abiJson = abi :=
  db.mem_contractAbis (e := (chain,abi)) (mem_contractAbis_iff.mpr h)

end Tables

section Queries
variable {db : Db} {b : Bytes} (htruthy : ∀ r ∈ db.abis, r.abiJson.truthy)
include htruthy

/-- The first of some rows of the join. -/
theorem firstTruthy_eq {rows : List (Int × Json)} (hrows : ∀ e ∈ rows, HasAbi db b e.1 e.2) :
    Db.firstTruthy rows = rows.head?.map Prod.snd := by
  cases rows with
  | nil => rfl
  | cons e rest =>
    obtain ⟨r,hr,habi⟩ := (hrows e (List.mem_cons_self ..)).stored
    have he : e.2.truthy := habi ▸ htruthy r hr
    simp [Db.firstTruthy, he]

theorem query_own {chain : Int} (hfits : fitsBigInt chain) :
    ∃ r, db.getAbiByContractAddress b (some chain) = .ok r ∧
      ∀ abi, r = some abi ↔ HasAbi db b chain abi := by
  have hmem : ∀ e, e ∈ (db.contractAbis b).filter (fun e => e.1 = chain) ↔
      HasAbi db b e.1 e.2 ∧ e.1 = chain := by
    intro e
    rw [List.mem_filter, mem_contractAbis_iff, decide_eq_true_eq]
  refine ⟨_,if_pos hfits,fun abi => ?_⟩
  rw [firstTruthy_eq htruthy fun e he => ((hmem e).mp he).1]
  cases hl : (db.contractAbis b).filter fun e => e.1 = chain with
  | nil =>
    apply iff_of_false (by simp)
    intro h
    have hin := (hmem (chain,abi)).mpr ⟨h,rfl⟩
    rw [hl] at hin
    cases hin
  | cons e rest =>
    obtain ⟨hfirst,rfl⟩ := (hmem e).mp (hl ▸ List.mem_cons_self ..)
    constructor
    · intro h
      cases h
      exact hfirst
    · exact fun h => congrArg some (hfirst.unique h)

theorem query_lowest :
    ∃ r, db.getAbiByContractAddress b none = .ok r ∧ ∀ abi, r = some abi ↔ IsLowestAbi db b abi := by
  have hmem : ∀ e, e ∈ (db.contractAbis b).insertionSort (fun a b => a.1 ≤ b.1) ↔
      HasAbi db b e.1 e.2 := by
    intro e
    rw [(List.perm_insertionSort _ _).mem_iff, mem_contractAbis_iff]
  have hsorted : ((db.contractAbis b).insertionSort fun a b => a.1 ≤ b.1).Pairwise
      fun a b => a.1 ≤ b.1 := by
    have : Std.Total (fun a b : Int × Json => a.1 ≤ b.1) := ⟨fun a b => le_total _ _⟩
    have : IsTrans (Int × Json) (fun a b => a.1 ≤ b.1) := ⟨fun a b c => le_trans⟩
    exact List.pairwise_insertionSort _ _
  refine ⟨_,rfl,fun abi => ?_⟩
  rw [firstTruthy_eq htruthy fun e he => (hmem e).mp he]
  cases hl : (db.contractAbis b).insertionSort fun a b => a.1 ≤ b.1 with
  | nil =>
    apply iff_of_false (by simp)
    rintro ⟨chain,h,_⟩
    have hin := (hmem (chain,abi)).mpr h
    rw [hl] at hin
    cases hin
  | cons e rest =>
    rw [hl] at hsorted
    have hfirst : HasAbi db b e.1 e.2 := (hmem e).mp (hl ▸ List.mem_cons_self ..)
    have hleast : ∀ chain abi', HasAbi db b chain abi' → e.1 ≤ chain := by
      intro chain abi' h
      have hin := (hmem (chain,abi')).mpr h
      rw [hl] at hin
      rcases List.mem_cons.mp hin with rfl | hin
      · exact le_rfl
      · exact List.rel_of_pairwise_cons hsorted hin
    constructor
    · intro h
      cases h
      exact ⟨e.1,hfirst,hleast⟩
    · rintro ⟨chain,h,hlow⟩
      obtain rfl : e.1 = chain := le_antisymm (hleast chain abi h) (hlow _ _ hfirst)
      exact congrArg some (hfirst.unique h)

variable {L : Externals} {key : AddressKey} {chainId : Option Int}

/-- The two queries find the preferred ABI. -/
theorem foundAbi_spec (hb : L.addressBytes key = .ok b)
    (hfits : ∀ chain, chainId = some chain → fitsBigInt chain) :
    ∃ r, foundAbi L db key chainId = .ok r ∧ ∀ abi, r = some abi ↔ Preferred db b chainId abi := by
  have hquery : ∀ c, queryContractAbi L db key c = db.getAbiByContractAddress b c := by
    intro c
    rw [queryContractAbi, hb]
    rfl
  obtain ⟨other,hother,hlowest⟩ := query_lowest (b := b) htruthy
  cases chainId with
  | none =>
    refine ⟨other,by rw [foundAbi_no_chain, hquery, hother],fun abi => ?_⟩
    rw [hlowest, Preferred]
    simp
  | some chain =>
    obtain ⟨own,hown,howns⟩ := query_own (b := b) htruthy (hfits chain rfl)
    cases own with
    | some found =>
      refine ⟨some found,foundAbi_own ((hquery _).trans hown),fun abi => ?_⟩
      have hfound := (howns found).mp rfl
      rw [howns, Preferred]
      constructor
      · exact fun h => .inl ⟨chain,rfl,h⟩
      · rintro (⟨_,hc,h⟩ | ⟨hnone,_⟩)
        · cases hc
          exact h
        · exact absurd hfound (hnone chain found rfl)
    | none =>
      refine ⟨other,by rw [foundAbi_other ((hquery _).trans hown), hquery, hother],fun abi => ?_⟩
      have hnone : ∀ abi', ¬HasAbi db b chain abi' := fun abi' h => nomatch (howns abi').mpr h
      rw [hlowest, Preferred]
      constructor
      · intro h
        refine .inr ⟨fun c abi' hc => ?_,h⟩
        cases hc
        exact hnone abi'
      · rintro (⟨_,hc,h⟩ | ⟨_,h⟩)
        · cases hc
          exact absurd h (hnone abi)
        · exact h

end Queries

section Resolution
variable (L : Externals) {C : Caches}

def value : AddressKey → PyVal
  | .bytes b => .bytes b
  | .str s => .str s

@[simp] theorem addressKey_value (key : AddressKey) : Externals.addressKey (value key) = .ok key := by
  cases key <;> rfl

/-- An address is given and not empty, and these are its bytes. -/
def Named (address : Option AddressKey) (b : Bytes) : Prop :=
  ∃ key, address = some key ∧ (value key).truthy ∧ L.addressBytes key = .ok b

/-- Non-empty ABIs that can be read, their selectors in the index and nothing in the caches. -/
structure Prepared (db : Db) (s : Service C) : Prop where
  abis : ∀ r ∈ db.abis, r.abiJson.truthy ∧ Loadable L r.abiJson
  index : ∀ k, k ∈ s.fnSelectorsWithAbis ↔ ∃ r ∈ db.abis, k ∈ selectors L r.abiJson
  contractAbi : s.contractAbi = C.abi.empty
  contractAbiSelectors : s.contractAbiSelectors = C.selectors.empty

/-- The function comes from where the order says. -/
structure Ordered (db : Db) (index : Dict Bytes Json) (data : Bytes) (address : Option AddressKey)
    (chainId : Option Int) (r : Option Json) : Prop where
  own : ∀ b chain abi f, Named L address b → chainId = some chain → HasAbi db b chain abi →
    (selectors L abi).lookup (selectorOf data) = some f → r = some f
  lowest : ∀ b abi f, Named L address b →
    (∀ chain abi', chainId = some chain → ¬HasAbi db b chain abi') → IsLowestAbi db b abi →
      (selectors L abi).lookup (selectorOf data) = some f → r = some f
  general : (∀ b abi, Named L address b → Preferred db b chainId abi →
    selectorOf data ∉ selectors L abi) → r = index.lookup (selectorOf data)
  missing : r = none ↔ ∀ row ∈ db.abis, selectorOf data ∉ selectors L row.abiJson

variable {L} {db : Db} {index : Dict Bytes Json} {data b : Bytes} {address : Option AddressKey}
  {chainId : Option Int}

theorem Named.unique {b' : Bytes} (h : Named L address b) (h' : Named L address b') : b = b' := by
  obtain ⟨key,hkey,_,hb⟩ := h
  obtain ⟨key',hkey',_,hb'⟩ := h'
  cases hkey.symm.trans hkey'
  exact Except.ok.inj (hb.symm.trans hb')

/-- Without an entry of the index nothing is asked of the database. -/
theorem resolve_not_in_index (h : index.lookup (selectorOf data) = none) (address : Option PyVal)
    (chainId : Option Int) : resolve L db index data address chainId = .ok none := by
  rw [resolve, abiFunctionWith, h]
  rfl

theorem resolve_unnamed {f : Json} (h : index.lookup (selectorOf data) = some f)
    (haddress : ∀ key, address = some key → ¬(value key).truthy) (chainId : Option Int) :
    resolve L db index data (address.map value) chainId = .ok (some f) := by
  have hfilter : (address.map value).filter PyVal.truthy = none := by
    cases address with
    | none => rfl
    | some key => simpa using haddress key rfl
  rw [resolve, abiFunctionWith, h, hfilter]
  rfl

theorem resolve_named {f : Json} (h : index.lookup (selectorOf data) = some f) {key : AddressKey}
    (hkey : (value key).truthy) :
    resolve L db index data (some (value key)) chainId = (do
      let specific ← contractSelectors L db key chainId
      return some ((specific.bind fun d => d.lookup (selectorOf data)).getD f)) := by
  rw [resolve, abiFunctionWith, h, Option.filter_some, if_pos hkey]
  dsimp only
  rw [addressKey_value]
  rfl

/-- The column type refuses the chain. -/
theorem resolve_wide_chain {f : Json} (h : index.lookup (selectorOf data) = some f)
    {key : AddressKey} (hkey : (value key).truthy) (hb : L.addressBytes key = .ok b) {chain : Int}
    (hwide : ¬fitsBigInt chain) :
    resolve L db index data (some (value key)) (some chain) = .error .dbApiError := by
  have hquery : queryContractAbi L db key (some chain) = .error .dbApiError := by
    rw [queryContractAbi, hb]
    exact if_neg hwide
  rw [resolve_named h hkey, contractSelectors, contractSelectorsWith, hquery]
  rfl

theorem Preferred.stored {abi : Json} (h : Preferred db b chainId abi) :
    ∃ r ∈ db.abis, r.abiJson = abi := by
  rcases h with ⟨_,_,h⟩ | ⟨_,_,h,_⟩
  · exact h.stored
  · exact h.stored

/-- The two cases of a contract ABI in one. -/
theorem Ordered.of_preferred {r : Option Json}
    (hpreferred : ∀ b abi f, Named L address b → Preferred db b chainId abi →
      (selectors L abi).lookup (selectorOf data) = some f → r = some f)
    (hgeneral : (∀ b abi, Named L address b → Preferred db b chainId abi →
      selectorOf data ∉ selectors L abi) → r = index.lookup (selectorOf data))
    (hmissing : r = none ↔ ∀ row ∈ db.abis, selectorOf data ∉ selectors L row.abiJson) :
    Ordered L db index data address chainId r where
  own b chain abi f hb hchain h := hpreferred b abi f hb (.inl ⟨chain,hchain,h⟩)
  lowest b abi f hb hnone h := hpreferred b abi f hb (.inr ⟨hnone,h⟩)
  general := hgeneral
  missing := hmissing

theorem Ordered.preferred {r : Option Json} (h : Ordered L db index data address chainId r)
    {abi f : Json} (hb : Named L address b) (habi : Preferred db b chainId abi)
    (hf : (selectors L abi).lookup (selectorOf data) = some f) : r = some f := by
  rcases habi with ⟨chain,hchain,habi⟩ | ⟨hnone,habi⟩
  · exact h.own b chain abi f hb hchain habi hf
  · exact h.lowest b abi f hb hnone habi hf

section Lookup
variable (hall : ∀ r ∈ db.abis, r.abiJson.truthy ∧ Loadable L r.abiJson)
include hall

/-- The selectors of a contract are those of its preferred ABI. -/
theorem contractSelectors_spec {key : AddressKey} (hb : L.addressBytes key = .ok b)
    (hfits : ∀ chain, chainId = some chain → fitsBigInt chain) :
    ∃ found, contractSelectors L db key chainId = .ok (found.map (selectors L)) ∧
      ∀ abi, found = some abi ↔ Preferred db b chainId abi := by
  obtain ⟨found,hfound,hspec⟩ := foundAbi_spec (fun r hr => (hall r hr).1) hb hfits
  refine ⟨found,contractSelectors_eq_ok_iff.mpr ?_,hspec⟩
  cases found with
  | none => exact .inl ⟨hfound,rfl⟩
  | some abi =>
    obtain ⟨r,hr,rfl⟩ := ((hspec abi).mp rfl).stored
    exact .inr ⟨r.abiJson,hfound,(hall r hr).2,rfl⟩

theorem resolve_ordered
    (hindex : ∀ k, k ∈ index ↔ ∃ r ∈ db.abis, k ∈ selectors L r.abiJson)
    (haddress : ∀ key, address = some key → ∃ b, L.addressBytes key = .ok b)
    (hfits : ∀ key chain, address = some key → (value key).truthy → chainId = some chain →
      selectorOf data ∈ index → fitsBigInt chain) :
    ∃ r, resolve L db index data (address.map value) chainId = .ok r ∧
      Ordered L db index data address chainId r := by
  cases hg : index.lookup (selectorOf data) with
  | none =>
    have hnowhere : ∀ row ∈ db.abis, selectorOf data ∉ selectors L row.abiJson := by
      intro row hrow hmem
      have hin := (hindex _).mpr ⟨row,hrow,hmem⟩
      rw [← AList.lookup_isSome, hg] at hin
      cases hin
    refine ⟨none,resolve_not_in_index hg _ _,.of_preferred ?_ (fun _ => hg.symm) (by simpa)⟩
    intro b abi f _ h hf
    obtain ⟨row,hrow,rfl⟩ := h.stored
    exact absurd (AList.lookup_isSome.mp (by rw [hf]; rfl)) (hnowhere row hrow)
  | some general =>
    have hin : selectorOf data ∈ index := AList.lookup_isSome.mp (by rw [hg]; rfl)
    have hstored : ¬∀ row ∈ db.abis, selectorOf data ∉ selectors L row.abiJson := by
      intro h
      obtain ⟨row,hrow,hmem⟩ := (hindex _).mp hin
      exact h row hrow hmem
    by_cases hnamed : ∃ key, address = some key ∧ (value key).truthy
    · obtain ⟨key,rfl,hkey⟩ := hnamed
      obtain ⟨b,hb⟩ := haddress key rfl
      obtain ⟨found,hsel,hspec⟩ := contractSelectors_spec hall hb fun chain hc =>
        hfits key chain rfl hkey hc hin
      have hname : Named L (some key) b := ⟨key,rfl,hkey,hb⟩
      refine ⟨some (((found.map (selectors L)).bind fun d => d.lookup (selectorOf data)).getD general),
        ?_,.of_preferred ?_ ?_ (iff_of_false (by simp) hstored)⟩
      · rw [Option.map_some, resolve_named hg hkey, hsel]
        rfl
      · intro b' abi f hb' h hf
        obtain rfl := hname.unique hb'
        rw [(hspec abi).mpr h, Option.map_some, Option.bind_some, hf, Option.getD_some]
      · intro h
        cases found with
        | none => exact hg.symm
        | some abi =>
          have hno := h b abi hname ((hspec abi).mp rfl)
          rw [Option.map_some, Option.bind_some, AList.lookup_eq_none.mpr hno, Option.getD_none, hg]
    · have hempty : ∀ key, address = some key → ¬(value key).truthy :=
        fun key hkey ht => hnamed ⟨key,hkey,ht⟩
      refine ⟨some general,resolve_unnamed hg hempty chainId,.of_preferred ?_ (fun _ => hg.symm)
        (iff_of_false (by simp) hstored)⟩
      rintro b abi f ⟨key,hkey,ht,_⟩
      exact absurd ht (hempty key hkey)

end Lookup

/-- What the other contracts and their ABIs are does not matter for a function that
the ABI of the contract gives. -/
def Undisturbed (L : Externals) (C : Caches) (db : Db) (data : Bytes) (address : Option AddressKey)
    (chainId : Option Int) (r : Option Json) : Prop :=
  ∀ b abi, Named L address b → Preferred db b chainId abi → selectorOf data ∈ selectors L abi →
    ∀ (db' : Db) (s : Service C), Prepared L db' s → SameAt b db db' →
      ∃ t, getAbiFunction L db' data (address.map value) chainId s = .ok r t

theorem getAbiFunction_returns {s : Service C} (h : Prepared L db s)
    (haddress : ∀ key, address = some key → ∃ b, L.addressBytes key = .ok b)
    (hfits : ∀ key chain, address = some key → (value key).truthy → chainId = some chain →
      selectorOf data ∈ s.fnSelectorsWithAbis → fitsBigInt chain) :
    ∃ r t, getAbiFunction L db data (address.map value) chainId s = .ok r t ∧
      Ordered L db s.fnSelectorsWithAbis data address chainId r := by
  obtain ⟨r,hr,hordered⟩ := resolve_ordered h.abis h.index haddress hfits
  have hcoherent : s.Coherent L db fun _ => True := by
    refine ⟨?_,?_⟩
    · rw [h.contractAbi]
      exact MemoTable.Coherent.empty _ _
    · rw [h.contractAbiSelectors]
      exact MemoTable.Coherent.empty _ _
  have hagrees : Agrees True (Service.Steady L db (fun _ => True) s)
      (getAbiFunction L db data (address.map value) chainId)
      (resolve L db s.fnSelectorsWithAbis data (address.map value) chainId) :=
    getAbiFunction_agrees (fun _ _ _ _ _ => trivial) data chainId
  rw [hr] at hagrees
  obtain ⟨t,_,ht⟩ := hagrees.ok trivial hcoherent.steady
  exact ⟨r,t,ht,hordered⟩

theorem getAbiFunction_ordered {s : Service C} (h : Prepared L db s)
    (haddress : ∀ key, address = some key → ∃ b, L.addressBytes key = .ok b)
    (hfits : ∀ key chain, address = some key → (value key).truthy → chainId = some chain →
      selectorOf data ∈ s.fnSelectorsWithAbis → fitsBigInt chain) :
    ∃ r t, getAbiFunction L db data (address.map value) chainId s = .ok r t ∧
      Ordered L db s.fnSelectorsWithAbis data address chainId r ∧
        Undisturbed L C db data address chainId r := by
  obtain ⟨r,t,hr,hordered⟩ := getAbiFunction_returns h haddress hfits
  refine ⟨r,t,hr,hordered,?_⟩
  intro b abi hname hpreferred hmem db' s' h' hsame
  obtain ⟨f,hf⟩ := Option.isSome_iff_exists.mp (AList.lookup_isSome.mpr hmem)
  have hin : selectorOf data ∈ s.fnSelectorsWithAbis := by
    obtain ⟨row,hrow,habi⟩ := hpreferred.stored
    exact (h.index _).mpr ⟨row,hrow,habi ▸ hmem⟩
  obtain ⟨r',t',hr',hordered'⟩ := getAbiFunction_returns h' haddress
    fun key chain hkey ht hchain _ => hfits key chain hkey ht hchain hin
  have hsome : r = some f := hordered.preferred hname hpreferred hf
  have hsome' : r' = some f := hordered'.preferred hname (hsame.preferred.mp hpreferred) hf
  rw [hsome]
  exact ⟨t',hsome' ▸ hr'⟩

end Resolution

section Chains
open Reference

/-- The ABI of the contract is stored first, another one with the same selector second. -/
def approveDb (address : Bytes) : Db where
  sources := []
  abis := [⟨1,0,.arr [approveErc20],1⟩, ⟨2,0,.arr [approveErc721],1⟩]
  contracts := [⟨1,address,none,none,none,false,none,0,some 2,none,2⟩,
    ⟨2,address,none,none,none,false,none,0,some 1,none,1⟩]
  abiIds := by simp
  contractKeys := by simp [ContractRow.key]

def approveSelector : Bytes := [0x09, 0x5e, 0xa7, 0xb3]

/-- A service that has just been started on these tables. -/
def approveService : Service Caches.leastRecentlyUsed :=
  Service.fresh (Dict.ofList [(approveSelector,approveErc721)]) ∅ (some 2)

theorem approveErc20_selectors :
    selectors packages (.arr [approveErc20]) = Dict.ofList [(approveSelector,approveErc20)] :=
  selectors_of_ok rfl

theorem approveErc721_selectors :
    selectors packages (.arr [approveErc721]) = Dict.ofList [(approveSelector,approveErc721)] :=
  selectors_of_ok rfl

theorem approve_prepared (address : Bytes) :
    Prepared packages (approveDb address) approveService where
  abis r hr := by
    rcases List.mem_pair.mp hr with rfl | rfl
    · exact ⟨rfl,_,rfl⟩
    · exact ⟨rfl,_,rfl⟩
  index k := by
    have hkey : ∀ f : Json, k ∈ Dict.ofList [(approveSelector,f)] ↔ approveSelector = k := by
      intro f
      rw [Dict.mem_ofList]
      simp
    constructor
    · intro h
      refine ⟨_,List.mem_cons_self ..,?_⟩
      rw [approveErc20_selectors]
      exact (hkey _).mpr ((hkey _).mp h)
    · rintro ⟨r,hr,h⟩
      rcases List.mem_pair.mp hr with rfl | rfl
      · rw [approveErc20_selectors] at h
        exact (hkey _).mpr ((hkey _).mp h)
      · rw [approveErc721_selectors] at h
        exact h
  contractAbi := rfl
  contractAbiSelectors := rfl

/-- The contract has the first ABI on chain 1 and the second on chain 2. -/
theorem approve_hasAbi (address : Bytes) :
    HasAbi (approveDb address) address 1 (.arr [approveErc20]) ∧
      ∀ chain abi, HasAbi (approveDb address) address chain abi → chain = 1 ∨ chain = 2 := by
  refine ⟨⟨_,List.mem_cons_of_mem _ (List.mem_cons_self ..),rfl,_,rfl,rfl⟩,?_⟩
  rintro chain abi ⟨row,hrow,hkey,_⟩
  rcases List.mem_pair.mp hrow with rfl | rfl
  · exact .inr (congrArg Prod.snd hkey).symm
  · exact .inl (congrArg Prod.snd hkey).symm

theorem ordered_lowestChain : ∃ t, getAbiFunction packages (approveDb [7]) approveSelector
    ((some (.bytes [7])).map value) (some 5) approveService = .ok (some approveErc20) t := by
  have hreads : ∀ key, some (AddressKey.bytes [7]) = some key →
      ∃ b, packages.addressBytes key = .ok b := by
    intro key hkey
    cases hkey
    exact ⟨_,rfl⟩
  have hfits : ∀ key chain, some (AddressKey.bytes [7]) = some key → (value key).truthy →
      some (5 : Int) = some chain →
        selectorOf approveSelector ∈ approveService.fnSelectorsWithAbis → fitsBigInt chain := by
    intro key chain _ _ hchain _
    cases hchain
    rfl
  obtain ⟨r,t,hr,hordered,_⟩ := getAbiFunction_ordered (approve_prepared [7]) hreads hfits
  obtain ⟨habi,hchains⟩ := approve_hasAbi [7]
  have hname : Named packages (some (.bytes [7])) [7] := ⟨_,rfl,rfl,rfl⟩
  have hnone : ∀ chain abi', some (5 : Int) = some chain → ¬HasAbi (approveDb [7]) [7] chain abi' := by
    intro chain abi' hchain h
    cases hchain
    rcases hchains 5 abi' h with h | h
    · cases h
    · cases h
  have hlow : IsLowestAbi (approveDb [7]) [7] (.arr [approveErc20]) := by
    refine ⟨1,habi,fun chain abi' h => ?_⟩
    have hchain := hchains chain abi' h
    omega
  have hfound := hordered.lowest [7] _ approveErc20 hname hnone hlow
    (by rw [approveErc20_selectors]; rfl)
  exact ⟨t,hfound ▸ hr⟩

theorem approve_agrees (address : Bytes) (key : AddressKey) (chainId : Option Int) :
    Agrees True (Service.Steady packages (approveDb address) (fun _ => True) approveService)
      (getAbiFunction packages (approveDb address) approveSelector ((some key).map value) chainId)
      (resolve packages (approveDb address) approveService.fnSelectorsWithAbis approveSelector
        ((some key).map value) chainId) :=
  getAbiFunction_agrees (fun _ _ _ _ _ => trivial) approveSelector chainId

/-- A chain beyond 64 bits is refused, and the contract at an empty address is not looked at. -/
theorem not_ordered_wideChain :
    (¬∃ r t, getAbiFunction packages (approveDb [7]) approveSelector
      ((some (.bytes [7])).map value) (some (2 ^ 63)) approveService = .ok r t) ∧
    HasAbi (approveDb []) [] 1 (.arr [approveErc20]) ∧
      ¬∃ t, getAbiFunction packages (approveDb []) approveSelector
        ((some (.bytes [])).map value) (some 1) approveService = .ok (some approveErc20) t := by
  have hsteady : ∀ address, Service.Steady packages (approveDb address) (fun _ => True) approveService
      approveService := fun _ => (Service.fresh_coherent _ _ _).steady
  refine ⟨?_,(approve_hasAbi []).1,?_⟩
  · rintro ⟨r,t,h⟩
    have hr := ((approve_agrees [7] (.bytes [7]) (some (2 ^ 63))).of_ok (hsteady [7]) h).2 trivial
    have hwide : resolve packages (approveDb [7]) approveService.fnSelectorsWithAbis approveSelector
        ((some (.bytes [7])).map value) (some (2 ^ 63)) = .error .dbApiError := by
      apply resolve_wide_chain
      · rfl
      · rfl
      · rfl
      · decide
    cases hr.symm.trans hwide
  · rintro ⟨t,h⟩
    have hr := ((approve_agrees [] (.bytes []) (some 1)).of_ok (hsteady []) h).2 trivial
    have hgeneral : resolve packages (approveDb []) approveService.fnSelectorsWithAbis approveSelector
        ((some (.bytes [])).map value) (some 1) = .ok (some approveErc721) := by
      refine resolve_unnamed rfl ?_ _
      rintro key hkey
      cases hkey
      exact Bool.false_ne_true
    have hsame := Option.some.inj (Except.ok.inj (hr.symm.trans hgeneral))
    exact approveErc721_ne hsame.symm

end Chains
end SafeDecoder.ResolutionOrder
