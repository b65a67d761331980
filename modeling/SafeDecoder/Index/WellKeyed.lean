import SafeDecoder.Calls.Exceptions

/-! # The selector index is well keyed, sourced and only grows

A service is started on a table and then adds ABIs, reloads and answers
requests, while the tables change as they like. Beside the service a run keeps
the list of the ABIs that were fully added, whatever interrupted a reload.
-/
namespace SafeDecoder.WellKeyed
open Effects SelectorIndex
variable {L : Externals} {C : Caches}

/-- `f` is a `function` entry of the document. -/
def IsFunctionOf (abi f : Json) : Prop :=
  ∃ entries, abi.iter = .ok entries ∧ f ∈ entries ∧ isFunctionEntry f

/-- The ABIs that a reload fully adds, however it ends. -/
def addedAbis (L : Externals) (failure : Option Failure) (q : AbiQueries) (s : Service C) :
    List Json :=
  if failsEarly failure then [] else loadedAbis L failure 0 (pendingAbis q s.lastAbiId)

/-- One call of the service. The queries and the tables are those of that moment. -/
inductive Step (L : Externals) : List Json × Service C → List Json × Service C → Prop
  | addAbi {added : List Json} {s t : Service C} {abi : Json} {updated : Bool}
      (returns : addAbi L abi s = .ok updated t) : Step L (added,s) (added ++ [abi],t)
  | addAbiRaises {added : List Json} {s t : Service C} {abi : Json} {e : PyError}
      (raises : addAbi L abi s = .error e t) : Step L (added,s) (added,t)
  | load {added : List Json} {s : Service C} (failure : Option Failure) (q : AbiQueries) :
      Step L (added,s)
        (added ++ addedAbis L failure q s,finalState (loadNewAbis L failure q s))
  | decode {added : List Json} {s : Service C} (db : Db) (n : ℕ) (data : Bytes)
      (address : Option PyVal) (chainId : Option Int) :
      Step L (added,s) (added,finalState (getDataDecoded L db n data address chainId s))
  | accuracy {added : List Json} {s : Service C} (db : Db) (data : Bytes)
      (address : Option PyVal) (chainId : Option Int) :
      Step L (added,s) (added,finalState (getDecodingAccuracy L db data address chainId s))

/-- The runs of a service that was started on `table`. -/
inductive Run (L : Externals) (table : List Json) : List Json × Service C → Prop
  | init {last : Option ℕ} {s : Service C} (started : init L last table = .ok s) :
      Run L table ([],s)
  | step {w w' : List Json × Service C} (run : Run L table w) (step : Step L w w') :
      Run L table w'

section Caches

/-- Whatever the cache of contract selectors holds is keyed by its own selectors. -/
def CachesValid (L : Externals) (s : Service C) : Prop :=
  ∀ k d, C.selectors.find s.contractAbiSelectors k = some (some d) → IndexValid L d

theorem indexValid_selectors (abi : Json) : IndexValid L (selectors L abi) := by
  intro k f hf
  exact ⟨(selectors_lookup hf).1,(selectors_lookup hf).2.1⟩

/-- The invariant of a run that requests keep. -/
structure Valid (L : Externals) (index : Dict Bytes Json) (s : Service C) : Prop where
  lock : s.lockLoadNewAbis = false
  unchanged : s.fnSelectorsWithAbis = index
  index : IndexValid L index
  caches : CachesValid L s

variable {index : Dict Bytes Json} (db : Db)

theorem getContractAbi_keeps (style : CallStyle) (a : AddressKey) (c : Option Int) :
    Keeps (Valid L index) (getContractAbi (C := C) L db style a c) := by
  refine MemoTable.call_triple (fun _ _ _ _ => trivial) ?_ ?_ (Triple.lift (fun _ _ => trivial)
    fun _ _ => trivial)
  · exact fun s hs => ⟨hs.lock,hs.unchanged,hs.index,hs.caches⟩
  · exact fun s v hs _ => ⟨hs.lock,hs.unchanged,hs.index,hs.caches⟩

/-- The selectors of a contract are well keyed, cached or not. -/
theorem contractSelectors_valid (a : AddressKey) (c : Option Int) :
    Triple (Valid L index) (getContractAbiSelectorsWithFunctions (C := C) L db a c)
      (fun r => ∀ d, r = some d → IndexValid L d) fun _ => True := by
  refine MemoTable.call_triple ?_ ?_ ?_ ?_
  · rintro s v hs hfind d rfl
    exact hs.caches _ d hfind
  · refine fun s hs => ⟨hs.lock,hs.unchanged,hs.index,fun k d hk => ?_⟩
    change C.selectors.find (C.selectors.touch s.contractAbiSelectors _) k = _ at hk
    rw [C.selectors.find_touch] at hk
    exact hs.caches k d hk
  · refine fun s v hs hv => ⟨hs.lock,hs.unchanged,hs.index,fun k d hk => ?_⟩
    rcases C.selectors.find_store _ _ _ _ _ hk with ⟨_,hd⟩ | hold
    · exact hv d hd.symm
    · exact hs.caches k d hold
  · apply (getContractAbi_keeps db .positional a c).bind
    intro abi _
    refine Triple.bind (Triple.ite (getContractAbi_keeps db .positional a none) (Triple.pure trivial))
      fun abi _ => ?_
    cases abi.filter Json.truthy with
    | none => exact Triple.pure fun d hd => nomatch hd
    | some abi =>
      refine Triple.bind (P := fun d => IndexValid L d) (Triple.lift (fun d hd => ?_) fun _ _ =>
        trivial) fun d hd => Triple.pure fun d' hd' => Option.some.inj hd' ▸ hd
      rw [← selectors_of_ok hd]
      exact indexValid_selectors abi

/-- `get_abi_function` returns a function with the selector of the data. -/
theorem getAbiFunction_valid (data : Bytes) (address : Option PyVal) (chainId : Option Int) :
    Triple (Valid L index) (getAbiFunction (C := C) L db data address chainId)
      (fun r => ∀ f, r = some f → isFunctionEntry f ∧
        L.functionAbiTo4byteSelector f = .ok (selectorOf data)) fun _ => True := by
  apply Triple.get_bind
  intro s hs
  unfold abiFunctionWith
  cases hg : s.fnSelectorsWithAbis.lookup (selectorOf data) with
  | none => exact Triple.pure fun f hf => nomatch hf
  | some general =>
    rw [hs.unchanged] at hg
    have hgeneral := hs.index _ _ hg
    cases address.filter PyVal.truthy with
    | none => exact Triple.pure fun f hf => Option.some.inj hf ▸ hgeneral
    | some a =>
      refine Triple.bind (P := fun _ => True) (Triple.lift (fun _ _ => trivial) fun _ _ => trivial)
        fun key _ => ?_
      refine (contractSelectors_valid db key chainId).bind fun specific hspecific =>
        Triple.pure fun f hf => ?_
      cases specific with
      | none => exact Option.some.inj hf ▸ hgeneral
      | some d =>
        have hd := Option.some.inj hf
        rw [Option.bind_some] at hd
        cases hl : d.lookup (selectorOf data) with
        | none =>
          rw [hl] at hd
          exact hd ▸ hgeneral
        | some own =>
          rw [hl] at hd
          exact hd ▸ hspecific d rfl _ _ hl

end Caches

section Growth

/-- The keys of the map of a document are the selectors of its functions. -/
theorem mem_selectors_iff {abi : Json} (h : Loadable L abi) {k : Bytes} :
    k ∈ selectors L abi ↔ ∃ f, IsFunctionOf abi f ∧ L.functionAbiTo4byteSelector f = .ok k := by
  constructor
  · intro hk
    obtain ⟨f,hf⟩ := Option.isSome_iff_exists.mp (AList.lookup_isSome.mpr hk)
    obtain ⟨hfn,hsel,entries,he,hm⟩ := selectors_lookup hf
    exact ⟨f,⟨entries,he,hm,hfn⟩,hsel⟩
  · rintro ⟨f,⟨entries,he,hm,hfn⟩,hsel⟩
    exact h.mem_selectors he hm hfn hsel

/-- What the index of a run holds: the added ABIs in the order in which they were
added, after the table at the start. -/
structure Inv (L : Externals) (table : List Json) (w : List Json × Service C) : Prop where
  loadable : ∀ abi ∈ table ++ w.1, Loadable L abi
  index : w.2.fnSelectorsWithAbis =
    Dict.mergeFirst (selectors L) (Dict.mergeLast (selectors L) ∅ table) w.1
  valid : Valid L w.2.fnSelectorsWithAbis w.2

variable {table : List Json} {w w' : List Json × Service C}

theorem Valid.reindex {index index' : Dict Bytes Json} {s t : Service C} (h : Valid L index s)
    (hlock : t.lockLoadNewAbis = false) (hindex : t.fnSelectorsWithAbis = index')
    (hvalid : IndexValid L index') (hcaches : t.contractAbiSelectors = s.contractAbiSelectors) :
    Valid L index' t := by
  refine ⟨hlock,hindex,hvalid,fun k d hk => ?_⟩
  rw [hcaches] at hk
  exact h.caches k d hk

theorem inv_init {last : Option ℕ} {s : Service C} (h : init L last table = .ok s) :
    Inv L table ([],s) := by
  obtain ⟨hall,_,rfl⟩ := init_eq_ok_iff.mp h
  refine ⟨by simpa using hall,rfl,rfl,rfl,indexValid_init h,fun k d hk => ?_⟩
  change C.selectors.find C.selectors.empty k = _ at hk
  rw [C.selectors.find_empty] at hk
  cases hk

/-- A call that adds a list of loadable ABIs behind the index. -/
theorem Inv.append (h : Inv L table w) {abis : List Json} (hl : ∀ abi ∈ abis, Loadable L abi)
    {t : Service C} (hindex : t.fnSelectorsWithAbis =
      Dict.mergeFirst (selectors L) w.2.fnSelectorsWithAbis abis)
    (hlock : t.lockLoadNewAbis = false)
    (hcaches : t.contractAbiSelectors = w.2.contractAbiSelectors) :
    Inv L table (w.1 ++ abis,t) := by
  constructor
  · intro abi ha
    rw [← List.append_assoc] at ha
    rcases List.mem_append.mp ha with hold | hnew
    · exact h.loadable abi hold
    · exact hl abi hnew
  · rw [hindex, h.index, Dict.mergeFirst_append]
  · refine h.valid.reindex hlock rfl ?_ hcaches
    rw [hindex]
    exact indexValid_mergeFirst h.valid.index abis

/-- A request leaves the index alone. -/
theorem Inv.request (h : Inv L table w) {t : Service C} (ht : Valid L w.2.fnSelectorsWithAbis t) :
    Inv L table (w.1,t) := by
  refine ⟨h.loadable,ht.unchanged.trans h.index,?_⟩
  rw [ht.unchanged]
  exact ht

theorem inv_step (h : Inv L table w) (step : Step L w w') : Inv L table w' := by
  cases step with
  | @addAbi added s t abi updated returns =>
    obtain ⟨hl,rfl⟩ := addAbi_eq_ok returns
    have hall : ∀ a ∈ [abi], Loadable L a := fun a ha => List.mem_singleton.mp ha ▸ hl
    exact h.append hall rfl h.valid.lock rfl
  | @addAbiRaises added s t abi e raises =>
    by_cases hl : Loadable L abi
    · obtain ⟨updated,hadd⟩ := addAbi_loadable hl s
      rw [hadd] at raises
      cases raises
    · obtain ⟨e',he⟩ := addAbi_not_loadable hl s
      rw [he] at raises
      cases raises
      exact h
  | @load added s failure q =>
    obtain ⟨hlock,_,hcaches,_,_⟩ := loadNewAbis_keeps (L := L) failure q h.valid.lock
    refine h.append ?_ ?_ hlock hcaches
    · intro abi ha
      unfold addedAbis at ha
      split at ha
      · cases ha
      · exact loadable_of_mem_loadedAbis ha
    · have hfinal : finalState (loadNewAbis L failure q s) = _ := loadNewAbis_finalState q h.valid.lock
      rw [hfinal, addedAbis]
      split
      · rfl
      · rfl
  | @decode added s db n data address chainId =>
    have hkeeps : Keeps (Valid L s.fnSelectorsWithAbis)
        (getDataDecoded (C := C) L db n data address chainId) :=
      getDataDecoded_keeps (fun k c => (contractSelectors_valid db k c).mono (fun _ _ => trivial)
        fun _ _ => trivial) n data address chainId
    exact h.request (hkeeps.finalState h.valid)
  | @accuracy added s db data address chainId =>
    have hkeeps : Keeps (Valid L s.fnSelectorsWithAbis)
        (getDecodingAccuracy (C := C) L db data address chainId) :=
      getDecodingAccuracy_keeps (getContractAbi_keeps db) data address chainId
    exact h.request (hkeeps.finalState h.valid)

theorem run_inv (h : Run L table w) : Inv L table w := by
  induction h with
  | init started => exact inv_init started
  | step _ hstep ih => exact inv_step ih hstep

/-- One call keeps every entry of the index, under the same selector. -/
theorem step_lookup (h : Inv L table w) (step : Step L w w') {k : Bytes} {f : Json}
    (hk : w.2.fnSelectorsWithAbis.lookup k = some f) : w'.2.fnSelectorsWithAbis.lookup k = some f := by
  have hext : ∃ abis, w'.1 = w.1 ++ abis := by
    cases step with
    | addAbi returns => exact ⟨_,rfl⟩
    | addAbiRaises raises => exact ⟨[],(List.append_nil _).symm⟩
    | load failure q => exact ⟨_,rfl⟩
    | decode db n data address chainId => exact ⟨[],(List.append_nil _).symm⟩
    | accuracy db data address chainId => exact ⟨[],(List.append_nil _).symm⟩
  obtain ⟨abis,habis⟩ := hext
  rw [(inv_step h step).index, habis, Dict.mergeFirst_append, ← h.index, Dict.lookup_mergeFirst, hk,
    Option.some_or]

theorem steps_lookup (h : Inv L table w) (steps : Relation.ReflTransGen (Step L) w w') {k : Bytes}
    {f : Json} (hk : w.2.fnSelectorsWithAbis.lookup k = some f) :
    w'.2.fnSelectorsWithAbis.lookup k = some f := by
  have hboth : Inv L table w' ∧ w'.2.fnSelectorsWithAbis.lookup k = some f := by
    induction steps with
    | refl => exact ⟨h,hk⟩
    | tail _ hstep ih => exact ⟨inv_step ih.1 hstep,step_lookup ih.1 hstep ih.2⟩
  exact hboth.2

/-- In every state of every run the index is keyed by the selectors of functions
of the ABIs it was given, has all of them, and loses none; and a function that is
returned for call data has the selector of that data. -/
theorem run_wellKeyed (four : ∀ f k, L.functionAbiTo4byteSelector f = .ok k → k.length = 4)
    (h : Run L table w) :
    (∀ k f, w.2.fnSelectorsWithAbis.lookup k = some f → k.length = 4 ∧
      L.functionAbiTo4byteSelector f = .ok k ∧ ∃ abi ∈ table ++ w.1, IsFunctionOf abi f) ∧
    (∀ k, k ∈ w.2.fnSelectorsWithAbis ↔
      ∃ abi ∈ table ++ w.1, ∃ f, IsFunctionOf abi f ∧ L.functionAbiTo4byteSelector f = .ok k) ∧
    (∀ w', Relation.ReflTransGen (Step L) w w' → ∀ k f,
      w.2.fnSelectorsWithAbis.lookup k = some f → w'.2.fnSelectorsWithAbis.lookup k = some f) ∧
    ∀ db data address chainId f t, getAbiFunction L db data address chainId w.2 = .ok (some f) t →
      (selectorOf data).length = 4 ∧ L.functionAbiTo4byteSelector f = .ok (selectorOf data) := by
  have hinv := run_inv h
  refine ⟨fun k f hf => ?_,fun k => ?_,fun w' steps k f hf => steps_lookup hinv steps hf,?_⟩
  · obtain ⟨_,hsel⟩ := hinv.valid.index k f hf
    refine ⟨four f k hsel,hsel,?_⟩
    rw [hinv.index, Dict.lookup_mergeFirst, Dict.lookup_mergeLast, AList.lookup_empty,
      Option.or_none] at hf
    have hsource : ∃ abi ∈ table ++ w.1, (selectors L abi).lookup k = some f := by
      rcases Option.or_eq_some_iff.mp hf with hlast | ⟨_,hfirst⟩
      · obtain ⟨_,abi,_,hl,habi,_⟩ := List.findSome?_eq_some_iff.mp hlast
        have hmem : abi ∈ table := by
          rw [← List.mem_reverse, hl]
          exact List.mem_append_right _ (List.mem_cons_self ..)
        exact ⟨abi,List.mem_append_left _ hmem,habi⟩
      · obtain ⟨_,abi,_,hl,habi,_⟩ := List.findSome?_eq_some_iff.mp hfirst
        have hmem : abi ∈ w.1 := by
          rw [hl]
          exact List.mem_append_right _ (List.mem_cons_self ..)
        exact ⟨abi,List.mem_append_right _ hmem,habi⟩
    obtain ⟨abi,ha,habi⟩ := hsource
    obtain ⟨hfn,_,entries,he,hm⟩ := selectors_lookup habi
    exact ⟨abi,ha,entries,he,hm,hfn⟩
  · rw [hinv.index, Dict.mem_mergeFirst, Dict.mem_mergeLast]
    simp only [AList.notMem_empty, false_or, ← exists_or, ← or_and_right, ← List.mem_append]
    refine exists_congr fun abi => and_congr_right fun ha => ?_
    exact mem_selectors_iff (hinv.loadable abi ha)
  · intro db data address chainId f t hf
    have hsel := (((getAbiFunction_valid db data address chainId _ hinv.valid).1 _ _ hf).2 f rfl).2
    exact ⟨four f _ hsel,hsel⟩

/-- A service started on `approve` and given `transfer` knows the selector of `transfer`. -/
theorem run_wellKeyed_transfer : ∃ s : Service Caches.leastRecentlyUsed,
    Run Reference.packages [.arr [Reference.approveErc20]] ([.arr [Reference.transferFunction]],s) ∧
      [0xa9, 0x05, 0x9c, 0xbb] ∈ s.fnSelectorsWithAbis := by
  have hload : ∀ abi ∈ [Json.arr [Reference.approveErc20]], Loadable Reference.packages abi := by
    intro abi ha
    exact List.mem_singleton.mp ha ▸ ⟨_,rfl⟩
  have hinit : init Reference.packages (some 1) [.arr [Reference.approveErc20]] =
      .ok (Service.fresh (C := Caches.leastRecentlyUsed)
        (Dict.mergeLast (selectors Reference.packages) ∅ [.arr [Reference.approveErc20]])
        (Dict.mergeLast (selectors Reference.packages) ∅ [Reference.packages.multiSendAbi])
        (some 1)) := init_eq_ok_iff.mpr ⟨hload,⟨_,rfl⟩,rfl⟩
  have htransfer : Loadable Reference.packages (.arr [Reference.transferFunction]) := ⟨_,rfl⟩
  obtain ⟨updated,hadd⟩ := addAbi_loadable htransfer (Service.fresh (C := Caches.leastRecentlyUsed)
    (Dict.mergeLast (selectors Reference.packages) ∅ [.arr [Reference.approveErc20]])
    (Dict.mergeLast (selectors Reference.packages) ∅ [Reference.packages.multiSendAbi]) (some 1))
  have hstart := Run.init hinit
  have hrun := Run.step hstart (.addAbi hadd)
  refine ⟨_,hrun,?_⟩
  have hkeys := (run_wellKeyed Containment.documented_packages.selectorLength hrun).2.1
  refine (hkeys _).mpr ⟨.arr [Reference.transferFunction],by simp,Reference.transferFunction,?_,rfl⟩
  exact ⟨_,rfl,List.mem_singleton_self _,rfl⟩

end Growth
end SafeDecoder.WellKeyed
