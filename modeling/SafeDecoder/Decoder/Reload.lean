import SafeDecoder.Decoder.CallData

/-! # Loading ABIs into the service

`init` reads the table least relevant first and lets a later ABI replace an
earlier one; `loadNewAbis` reads what came after the cursor and never replaces.
A reload can be interrupted at every point where it waits, and what it leaves
behind is then the state of that point.
-/
namespace SafeDecoder
open Effects SelectorIndex

/-- The answers that the table gives to the three queries on it. -/
structure AbiQueries where
  lastInsertedId : Option ℕ
  sortedByRelevance : List Json
  idGreaterThan : ℕ → List Json

/-- The answers of one table, which is streamed by relevance in the given order. -/
def AbiQueries.ofTable (abis order : List AbiRow) : AbiQueries :=
  ⟨getLastInsertedId abis,order.map AbiRow.abiJson,
    fun n => (getAbisWithIdGreaterThan abis n).map AbiRow.abiJson⟩

/-- Where a reload waits: for the lock, for the id, for the next row after some
rows, and for the selectors of the next row. -/
inductive WaitPoint
  | lock | idQuery | stream (rows : ℕ) | selectors (rows : ℕ)
  deriving DecidableEq, Repr

/-- An exception that reaches a reload from outside, at a point where it waits. -/
structure Failure where
  point : WaitPoint
  error : PyError
  deriving DecidableEq, Repr

section Loading
variable (L : Externals) {C : Caches}

/-- `init`, given its two queries. -/
def init (lastInsertedId : Option ℕ) (supportedAbis : List Json) : Except PyError (Service C) := do
  let fnSelectorsWithAbis ← generateSelectorsWithAbisFromAbis L supportedAbis
  let multisendFnSelectorsWithAbis ← generateSelectorsWithAbisFromAbis L [L.multiSendAbi]
  return Service.fresh fnSelectorsWithAbis multisendFnSelectorsWithAbis lastInsertedId

/-- `add_abi`: whether a selector was new. -/
def addAbi (abi : Json) : Py C Bool := do
  let fromAbi ← fromExcept (generateSelectorsWithAbisFromAbi L abi)
  let s ← get
  let added := addSelectors s.fnSelectorsWithAbis fromAbi.items
  set { s with fnSelectorsWithAbis := added.1 }
  return added.2

variable (failure : Option Failure)

def waitAt (point : WaitPoint) : Py C Unit :=
  match failure with
  | some f => if f.point = point then throw f.error else pure ()
  | none => pure ()

/-- The loop of `load_new_abis` after `rows` rows, with its counter. -/
def addAbis (rows loadedAbis : ℕ) : List Json → Py C ℕ
  | [] => do
    waitAt failure (.stream rows)
    return loadedAbis
  | abi :: rest => do
    waitAt failure (.stream rows)
    waitAt failure (.selectors rows)
    let updated ← addAbi L abi
    addAbis (rows+1) (if updated then loadedAbis + 1 else loadedAbis) rest

/-- The ABIs that a reload is about to load with a given cursor. -/
def pendingAbis (q : AbiQueries) : Option ℕ → List Json
  | none => q.sortedByRelevance
  | some previousLastAbiId =>
    if q.lastInsertedId.any fun last => previousLastAbiId < last then
      q.idGreaterThan previousLastAbiId
    else []

/-- The part of `load_new_abis` under the lock. The cursor moves before a row is read. -/
def reload (q : AbiQueries) : Py C ℕ := do
  waitAt failure .idQuery
  let s ← get
  set { s with lastAbiId := q.lastInsertedId }
  match s.lastAbiId with
  | none => addAbis L failure 0 0 q.sortedByRelevance
  | some previousLastAbiId =>
    if q.lastInsertedId.any fun last => previousLastAbiId < last then
      addAbis L failure 0 0 (q.idGreaterThan previousLastAbiId)
    else return 0

/-- The `try` block of `load_new_abis` with its `finally`: a taken lock times out. -/
def reloadLocked (q : AbiQueries) : Py C ℕ := do
  waitAt failure .lock
  let s ← get
  if s.lockLoadNewAbis then throw .timeoutError
  else
    set { s with lockLoadNewAbis := true }
    ensuring (reload L failure q) fun s => { s with lockLoadNewAbis := false }

/-- `load_new_abis`. One handler turns the timeout of the lock and a timeout of
the database into `return 0`. -/
def loadNewAbis (q : AbiQueries) : Py C ℕ :=
  catchOnly PyError.isTimeoutError (reloadLocked L failure q) fun _ => return 0

end Loading

theorem pendingAbis_of_lt {q : AbiQueries} {n m : ℕ} (hm : q.lastInsertedId = some m) (h : n < m) :
    pendingAbis q (some n) = q.idGreaterThan n := by
  simp [pendingAbis, hm, h]

section Init
variable {L : Externals} {C : Caches}

/-- What `init` builds, and that it needs every ABI to be loadable. -/
theorem init_eq_ok_iff {lastInsertedId : Option ℕ} {supportedAbis : List Json} {s : Service C} :
    init L lastInsertedId supportedAbis = .ok s ↔
      (∀ abi ∈ supportedAbis, Loadable L abi) ∧ Loadable L L.multiSendAbi ∧
      s = Service.fresh (Dict.mergeLast (selectors L) ∅ supportedAbis)
        (Dict.mergeLast (selectors L) ∅ [L.multiSendAbi]) lastInsertedId := by
  simp only [init, bind_eq_ok_iff, generateFromAbis_eq_ok_iff]
  constructor
  · rintro ⟨_,⟨hall,rfl⟩,_,⟨hmulti,rfl⟩,h⟩
    exact ⟨hall,hmulti _ (List.mem_singleton_self _),(Except.ok.inj h).symm⟩
  · rintro ⟨hall,hmulti,rfl⟩
    exact ⟨_,⟨hall,rfl⟩,_,⟨by simpa using hmulti,rfl⟩,rfl⟩

end Init

section Rows
variable {L : Externals} {C : Caches} {failure : Option Failure}

theorem addAbi_loadable {abi : Json} (h : Loadable L abi) (s : Service C) :
    ∃ updated, addAbi L abi s = .ok updated
      { s with fnSelectorsWithAbis := s.fnSelectorsWithAbis.fillMissing (selectors L abi).items } := by
  have hrun : addAbi L abi s =
      .ok (addSelectors s.fnSelectorsWithAbis (selectors L abi).items).2
        { s with fnSelectorsWithAbis :=
          (addSelectors s.fnSelectorsWithAbis (selectors L abi).items).1 } := by
    rw [addAbi, h.generate]
    rfl
  rw [addSelectors_fst] at hrun
  exact ⟨_,hrun⟩

theorem addAbi_not_loadable {abi : Json} (h : ¬ Loadable L abi) (s : Service C) :
    ∃ e, addAbi L abi s = .error e s := by
  obtain ⟨e,he⟩ := generate_of_not_loadable h
  refine ⟨e,?_⟩
  rw [addAbi, he]
  rfl

theorem addAbi_eq_ok {abi : Json} {s t : Service C} {updated : Bool}
    (h : addAbi L abi s = .ok updated t) : Loadable L abi ∧
      t = { s with fnSelectorsWithAbis :=
        s.fnSelectorsWithAbis.fillMissing (selectors L abi).items } := by
  by_cases hl : Loadable L abi
  · obtain ⟨updated',hadd⟩ := addAbi_loadable hl s
    rw [hadd] at h
    cases h
    exact ⟨hl,rfl⟩
  · obtain ⟨e,he⟩ := addAbi_not_loadable hl s
    rw [he] at h
    cases h

/-- The failure reaches a reload that has read `rows` rows. -/
def stopsAt (failure : Option Failure) (rows : ℕ) : Bool :=
  failure.any fun f => f.point = .stream rows || f.point = .selectors rows

/-- The ABIs that the loop adds before it ends. -/
def loadedAbis (L : Externals) (failure : Option Failure) : ℕ → List Json → List Json
  | _, [] => []
  | rows, abi :: rest =>
    match stopsAt failure rows, generateSelectorsWithAbisFromAbi L abi with
    | false, .ok _ => abi :: loadedAbis L failure (rows+1) rest
    | _, _ => []

theorem loadable_of_mem_loadedAbis {rows : ℕ} {abis : List Json} {abi : Json}
    (h : abi ∈ loadedAbis L failure rows abis) : Loadable L abi := by
  induction abis generalizing rows with
  | nil => cases h
  | cons a rest ih =>
    unfold loadedAbis at h
    split at h
    · rename_i d _ hd
      rcases List.mem_cons.mp h with rfl | h
      · exact ⟨d,hd⟩
      · exact ih h
    · cases h

/-- Without a failure every loadable stream is read to its end. -/
theorem loadedAbis_of_loadable {abis : List Json} (rows : ℕ) (h : ∀ abi ∈ abis, Loadable L abi) :
    loadedAbis L none rows abis = abis := by
  induction abis generalizing rows with
  | nil => rfl
  | cons abi rest ih =>
    rw [loadedAbis, (h abi (List.mem_cons_self ..)).generate]
    change abi :: loadedAbis L none (rows+1) rest = abi :: rest
    rw [ih (rows+1) fun a ha => h a (List.mem_cons_of_mem _ ha)]

/-- Waiting leaves the state alone, and raises only the failure of that point. -/
theorem waitAt_cases (failure : Option Failure) (point : WaitPoint) (s : Service C) :
    (waitAt failure point s = .ok () s ∧ ∀ f, failure = some f → f.point ≠ point) ∨
      ∃ f, failure = some f ∧ f.point = point ∧ waitAt failure point s = .error f.error s := by
  cases failure with
  | none => exact Or.inl ⟨rfl,fun f hf => nomatch hf⟩
  | some f =>
    by_cases hp : f.point = point
    · refine Or.inr ⟨f,rfl,hp,?_⟩
      simp only [waitAt, if_pos hp]
      rfl
    · refine Or.inl ⟨?_,fun g hg => Option.some.inj hg ▸ hp⟩
      simp only [waitAt, if_neg hp]
      rfl

theorem stopsAt_eq_true {rows : ℕ} {f : Failure} (hf : failure = some f)
    (h : f.point = .stream rows ∨ f.point = .selectors rows) : stopsAt failure rows = true := by
  subst hf
  simpa [stopsAt] using h

theorem stopsAt_eq_false {rows : ℕ} (hstream : ∀ f, failure = some f → f.point ≠ .stream rows)
    (hsel : ∀ f, failure = some f → f.point ≠ .selectors rows) : stopsAt failure rows = false := by
  cases failure with
  | none => rfl
  | some f => simp [stopsAt, hstream f rfl, hsel f rfl]

/-- A row that is neither interrupted nor malformed is added, and the loop goes on. -/
theorem addAbis_cons_ok {rows : ℕ} {abi : Json} (hf : stopsAt failure rows = false)
    (h : Loadable L abi) (n : ℕ) (rest : List Json) (s : Service C) :
    ∃ n', addAbis L failure rows n (abi :: rest) s = addAbis L failure (rows+1) n' rest
      { s with fnSelectorsWithAbis := s.fnSelectorsWithAbis.fillMissing (selectors L abi).items } := by
  obtain ⟨updated,hadd⟩ := addAbi_loadable h s
  refine ⟨if updated then n + 1 else n,?_⟩
  rw [addAbis]
  rcases waitAt_cases failure (.stream rows) s with ⟨hstream,_⟩ | ⟨f,hfs,hp,_⟩
  · rw [run_bind_ok hstream]
    rcases waitAt_cases failure (.selectors rows) s with ⟨hsel,_⟩ | ⟨f,hfs,hp,_⟩
    · rw [run_bind_ok hsel, run_bind_ok hadd]
    · rw [stopsAt_eq_true hfs (Or.inr hp)] at hf
      cases hf
  · rw [stopsAt_eq_true hfs (Or.inl hp)] at hf
    cases hf

/-- Any other row ends the loop, with the index as it was. -/
theorem addAbis_cons_error {rows : ℕ} {abi : Json}
    (h : stopsAt failure rows = true ∨ ¬ Loadable L abi) (n : ℕ) (rest : List Json)
    (s : Service C) : ∃ e, addAbis L failure rows n (abi :: rest) s = .error e s := by
  rw [addAbis]
  rcases waitAt_cases failure (.stream rows) s with ⟨hstream,hns⟩ | ⟨f,_,_,hstream⟩
  · rw [run_bind_ok hstream]
    rcases waitAt_cases failure (.selectors rows) s with ⟨hsel,hnsel⟩ | ⟨f,_,_,hsel⟩
    · rw [run_bind_ok hsel]
      rcases h with hs | hl
      · rw [stopsAt_eq_false hns hnsel] at hs
        cases hs
      · obtain ⟨e,he⟩ := addAbi_not_loadable hl s
        exact ⟨e,run_bind_error he⟩
    · exact ⟨f.error,run_bind_error hsel⟩
  · exact ⟨f.error,run_bind_error hstream⟩

theorem loadedAbis_cons_ok {rows : ℕ} {abi : Json} (hf : stopsAt failure rows = false)
    (h : Loadable L abi) (rest : List Json) :
    loadedAbis L failure rows (abi :: rest) = abi :: loadedAbis L failure (rows+1) rest := by
  rw [loadedAbis, hf, h.generate]

theorem loadedAbis_cons_error {rows : ℕ} {abi : Json}
    (h : stopsAt failure rows = true ∨ ¬ Loadable L abi) (rest : List Json) :
    loadedAbis L failure rows (abi :: rest) = [] := by
  rw [loadedAbis]
  rcases h with h | h
  · rw [h]
  · obtain ⟨e,he⟩ := generate_of_not_loadable h
    rw [he]
    cases stopsAt failure rows <;> rfl

/-- However the loop ends, the index holds the ABIs added until then. -/
theorem addAbis_finalState (rows n : ℕ) (abis : List Json) (s : Service C) :
    finalState (addAbis L failure rows n abis s) =
      { s with fnSelectorsWithAbis :=
        Dict.mergeFirst (selectors L) s.fnSelectorsWithAbis (loadedAbis L failure rows abis) } := by
  induction abis generalizing rows n s with
  | nil =>
    rw [addAbis]
    rcases waitAt_cases failure (.stream rows) s with ⟨hstream,_⟩ | ⟨f,_,_,hstream⟩
    · rw [run_bind_ok hstream]
      rfl
    · rw [run_bind_error hstream]
      rfl
  | cons abi rest ih =>
    by_cases h : stopsAt failure rows = false ∧ Loadable L abi
    · obtain ⟨n',he⟩ := addAbis_cons_ok h.1 h.2 n rest s
      rw [he, ih, loadedAbis_cons_ok h.1 h.2]
      rfl
    · rw [not_and_or, Bool.not_eq_false] at h
      obtain ⟨e,he⟩ := addAbis_cons_error h n rest s
      rw [he, loadedAbis_cons_error h]
      rfl

/-- The loop ends normally only when it has added every ABI of the stream. -/
theorem addAbis_ok {rows n k : ℕ} {abis : List Json} {s t : Service C}
    (h : addAbis L failure rows n abis s = .ok k t) : loadedAbis L failure rows abis = abis := by
  induction abis generalizing rows n s with
  | nil => rfl
  | cons abi rest ih =>
    by_cases hrow : stopsAt failure rows = false ∧ Loadable L abi
    · obtain ⟨n',he⟩ := addAbis_cons_ok hrow.1 hrow.2 n rest s
      rw [he] at h
      rw [loadedAbis_cons_ok hrow.1 hrow.2, ih h]
    · rw [not_and_or, Bool.not_eq_false] at hrow
      obtain ⟨e,he⟩ := addAbis_cons_error hrow n rest s
      rw [he] at h
      cases h

theorem addAbis_loadable {abis : List Json} (h : ∀ abi ∈ abis, Loadable L abi) (rows n : ℕ)
    (s : Service C) : ∃ k t, addAbis L none rows n abis s = .ok k t := by
  induction abis generalizing rows n s with
  | nil => exact ⟨n,s,rfl⟩
  | cons abi rest ih =>
    have hrow : stopsAt none rows = false := rfl
    obtain ⟨n',he⟩ := addAbis_cons_ok hrow (h abi (List.mem_cons_self ..)) n rest s
    rw [he]
    exact ih (fun a ha => h a (List.mem_cons_of_mem _ ha)) _ _ _

end Rows

section Reloading
variable {L : Externals} {C : Caches} {failure : Option Failure}

/-- The failure reaches the reload before the cursor moves. -/
def failsEarly (failure : Option Failure) : Bool :=
  failure.any fun f => f.point = .lock || f.point = .idQuery

/-- The state after a reload that moved the cursor. -/
def Service.reloaded (s : Service C) (L : Externals) (failure : Option Failure) (q : AbiQueries) :
    Service C :=
  { s with
    lastAbiId := q.lastInsertedId
    fnSelectorsWithAbis := Dict.mergeFirst (selectors L) s.fnSelectorsWithAbis
      (loadedAbis L failure 0 (pendingAbis q s.lastAbiId)) }

/-- After the id query a reload is the loop over what is pending. -/
theorem reload_finalState {q : AbiQueries} {s : Service C}
    (h : waitAt failure .idQuery s = .ok () s) :
    finalState (reload L failure q s) = s.reloaded L failure q := by
  rw [reload, run_bind_ok h]
  change finalState ((match s.lastAbiId with
    | none => addAbis L failure 0 0 q.sortedByRelevance
    | some previousLastAbiId =>
      if q.lastInsertedId.any fun last => previousLastAbiId < last then
        addAbis L failure 0 0 (q.idGreaterThan previousLastAbiId)
      else return 0) { s with lastAbiId := q.lastInsertedId }) = _
  unfold Service.reloaded pendingAbis
  cases s.lastAbiId with
  | none => exact addAbis_finalState 0 0 _ _
  | some previous =>
    simp only
    split
    · exact addAbis_finalState 0 0 _ _
    · rfl

theorem failsEarly_iff : failsEarly failure = true ↔
    ∃ f, failure = some f ∧ (f.point = .lock ∨ f.point = .idQuery) := by
  cases failure with
  | none => simp [failsEarly]
  | some f => simp [failsEarly]

theorem reloadLocked_free {q : AbiQueries} {s : Service C} (hlock : s.lockLoadNewAbis = false)
    (h : waitAt failure .lock s = .ok () s) : reloadLocked L failure q s =
      ensuring (reload L failure q) (fun s => { s with lockLoadNewAbis := false })
        { s with lockLoadNewAbis := true } := by
  rcases s with ⟨index,multi,last,lock,abi,sel⟩
  subst hlock
  rw [reloadLocked, run_bind_ok h]
  rfl

theorem reloadLocked_taken {q : AbiQueries} {s : Service C} (hlock : s.lockLoadNewAbis = true)
    (h : waitAt failure .lock s = .ok () s) :
    reloadLocked L failure q s = .error .timeoutError s := by
  rcases s with ⟨index,multi,last,lock,abi,sel⟩
  subst hlock
  rw [reloadLocked, run_bind_ok h]
  rfl

/-- The state that a reload leaves, however it ends: untouched when it is
interrupted early, and otherwise with the cursor moved. -/
theorem loadNewAbis_finalState (q : AbiQueries) {s : Service C} (hlock : s.lockLoadNewAbis = false) :
    finalState (loadNewAbis L failure q s) =
      if failsEarly failure then s else s.reloaded L failure q := by
  rw [loadNewAbis, finalState_catchOnly fun e t => rfl]
  rcases waitAt_cases failure .lock s with ⟨hw,hnl⟩ | ⟨f,hf,hp,hw⟩
  · rw [reloadLocked_free hlock hw, finalState_ensuring]
    rcases waitAt_cases failure .idQuery { s with lockLoadNewAbis := true } with
      ⟨hi,hni⟩ | ⟨f,hf,hp,hi⟩
    · rw [reload_finalState hi, if_neg]
      · rcases s with ⟨index,multi,last,lock,abi,sel⟩
        subst hlock
        rfl
      · rw [failsEarly_iff]
        rintro ⟨f,hf,hp | hp⟩
        · exact hnl f hf hp
        · exact hni f hf hp
    · rw [reload, run_bind_error hi, if_pos (failsEarly_iff.mpr ⟨f,hf,Or.inr hp⟩)]
      rcases s with ⟨index,multi,last,lock,abi,sel⟩
      subst hlock
      rfl
  · rw [reloadLocked, run_bind_error hw, if_pos (failsEarly_iff.mpr ⟨f,hf,Or.inl hp⟩)]
    rfl

/-- A reload runs to completion: the lock is free and no exception ends it. -/
def Completes (L : Externals) (q : AbiQueries) (s t : Service C) : Prop :=
  ∃ k, reloadLocked L none q s = .ok k t

theorem Completes.loadNewAbis {q : AbiQueries} {s t : Service C} (h : Completes L q s t) :
    ∃ k, loadNewAbis L none q s = .ok k t := by
  obtain ⟨k,hk⟩ := h
  exact ⟨k,run_catchOnly_ok hk⟩

/-- After the id query an uninterrupted reload ends normally exactly when all
that is pending is loadable. -/
theorem reload_ok_iff {q : AbiQueries} {s : Service C} :
    (∃ k t, reload L none q s = .ok k t) ↔ ∀ abi ∈ pendingAbis q s.lastAbiId, Loadable L abi := by
  have hloop : ∀ (abis : List Json) (s : Service C),
      (∃ k t, addAbis L none 0 0 abis s = .ok k t) ↔ ∀ abi ∈ abis, Loadable L abi := by
    intro abis s
    constructor
    · rintro ⟨k,t,hk⟩ abi ha
      rw [← addAbis_ok hk] at ha
      exact loadable_of_mem_loadedAbis ha
    · exact fun h => addAbis_loadable h 0 0 s
  rw [reload, run_bind_ok (rfl : waitAt none .idQuery s = _)]
  change (∃ k t, (match s.lastAbiId with
    | none => addAbis L none 0 0 q.sortedByRelevance
    | some previousLastAbiId =>
      if q.lastInsertedId.any fun last => previousLastAbiId < last then
        addAbis L none 0 0 (q.idGreaterThan previousLastAbiId)
      else return 0) { s with lastAbiId := q.lastInsertedId } = .ok k t) ↔ _
  unfold pendingAbis
  cases s.lastAbiId with
  | none => exact hloop _ _
  | some previous =>
    simp only
    split
    · exact hloop _ _
    · exact ⟨fun _ abi ha => absurd ha List.not_mem_nil,fun _ => ⟨0,_,rfl⟩⟩

/-- What a completed reload needs and what it leaves. -/
theorem completes_iff {q : AbiQueries} {s t : Service C} :
    Completes L q s t ↔ s.lockLoadNewAbis = false ∧
      (∀ abi ∈ pendingAbis q s.lastAbiId, Loadable L abi) ∧ t = s.reloaded L none q := by
  cases hlock : s.lockLoadNewAbis with
  | true =>
    refine ⟨?_,fun h => nomatch h.1⟩
    rintro ⟨k,hk⟩
    rw [reloadLocked_taken hlock rfl] at hk
    cases hk
  | false =>
    have hfinal : finalState (loadNewAbis L none q s) = s.reloaded L none q :=
      loadNewAbis_finalState q hlock
    constructor
    · rintro ⟨k,hk⟩
      rw [loadNewAbis, run_catchOnly_ok hk] at hfinal
      refine ⟨rfl,?_,hfinal⟩
      rw [reloadLocked_free hlock rfl] at hk
      obtain ⟨u,hu,_⟩ := ensuring_eq_ok hk
      exact reload_ok_iff (s := { s with lockLoadNewAbis := true }) |>.mp ⟨k,u,hu⟩
    · rintro ⟨_,hall,rfl⟩
      obtain ⟨k,u,hu⟩ :=
        (reload_ok_iff (L := L) (q := q) (s := { s with lockLoadNewAbis := true })).mpr hall
      have hk : reloadLocked L none q s = .ok k { u with lockLoadNewAbis := false } := by
        rw [reloadLocked_free hlock rfl]
        simp only [ensuring, hu]
      rw [loadNewAbis, run_catchOnly_ok hk] at hfinal
      exact ⟨k,hk.trans (congrArg _ hfinal)⟩

/-- A reload with nothing pending completes and moves the cursor only. -/
theorem completes_nothing_pending {q : AbiQueries} {s : Service C}
    (hlock : s.lockLoadNewAbis = false) (h : pendingAbis q s.lastAbiId = []) :
    Completes L q s { s with lastAbiId := q.lastInsertedId } := by
  refine completes_iff.mpr ⟨hlock,?_,?_⟩
  · intro abi ha
    rw [h] at ha
    cases ha
  · rw [Service.reloaded, h]
    rfl

/-- What a completed reload leaves in the index. -/
theorem Completes.lookup {q : AbiQueries} {s t : Service C} (h : Completes L q s t) (k : Bytes) :
    t.fnSelectorsWithAbis.lookup k = (s.fnSelectorsWithAbis.lookup k).or
      ((pendingAbis q s.lastAbiId).findSome? fun abi => (selectors L abi).lookup k) := by
  obtain ⟨_,hall,rfl⟩ := completes_iff.mp h
  rw [Service.reloaded, loadedAbis_of_loadable 0 hall, Dict.lookup_mergeFirst]

theorem Completes.lastAbiId {q : AbiQueries} {s t : Service C} (h : Completes L q s t) :
    t.lastAbiId = q.lastInsertedId := by
  obtain ⟨_,_,rfl⟩ := completes_iff.mp h
  rfl

theorem Completes.mem {q : AbiQueries} {s t : Service C} (h : Completes L q s t) {k : Bytes} :
    k ∈ t.fnSelectorsWithAbis ↔ k ∈ s.fnSelectorsWithAbis ∨
      ∃ abi ∈ pendingAbis q s.lastAbiId, k ∈ selectors L abi := by
  obtain ⟨_,hall,rfl⟩ := completes_iff.mp h
  rw [Service.reloaded, loadedAbis_of_loadable 0 hall, Dict.mem_mergeFirst]

/-- If what lies up to the cursor is in the index, a completed reload leaves the
whole table there. -/
theorem Completes.mem_of_row {abis order : List AbiRow} {s t : Service C}
    (h : Completes L (AbiQueries.ofTable abis order) s t) (ho : IsRelevanceOrder abis order)
    (hloaded : ∀ c, s.lastAbiId = some c → ∀ r ∈ abis, r.id ≤ c → ∀ k ∈ selectors L r.abiJson,
      k ∈ s.fnSelectorsWithAbis) {r : AbiRow} (hr : r ∈ abis) {k : Bytes}
    (hk : k ∈ selectors L r.abiJson) : k ∈ t.fnSelectorsWithAbis := by
  rw [h.mem]
  cases hlast : s.lastAbiId with
  | none => exact Or.inr ⟨r.abiJson,List.mem_map_of_mem (ho.1.mem_iff.mpr hr),hk⟩
  | some c =>
    by_cases hle : r.id ≤ c
    · exact Or.inl (hloaded c hlast r hr hle k hk)
    · refine Or.inr ⟨r.abiJson,?_,hk⟩
      obtain ⟨n,hn,hmax⟩ := exists_getLastInsertedId hr
      have hlt : c < n := by omega
      have hpend : pendingAbis (AbiQueries.ofTable abis order) (some c) =
          (getAbisWithIdGreaterThan abis c).map AbiRow.abiJson := pendingAbis_of_lt hn hlt
      rw [hpend]
      exact List.mem_map_of_mem (mem_getAbisWithIdGreaterThan.mpr ⟨hr,not_le.mp hle⟩)

end Reloading
end SafeDecoder
