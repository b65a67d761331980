import SafeDecoder.Data.ReferencePackages
import SafeDecoder.Decoder.Reload
import Mathlib.Logic.Relation

/-! # The id cursor while rows are being inserted

Ids are taken when a row is inserted and rows become visible when they are
committed. The service reads the last visible id in one query and the rows in
another, so a row that is still in flight when the rows are read is found later
only if its id is above the cursor.
-/
namespace SafeDecoder.CursorRaces
open Effects SelectorIndex
variable {L : Externals} {C : Caches}

structure World where
  nextId : ℕ
  inFlight : List AbiRow
  committed : List AbiRow

/-- What the transactions do: insert a row under the next id, commit or abort. -/
inductive DbStep : World → World → Prop
  | begin (w : World) (relevance : Int) (abiJson : Json) (sourceId : ℕ) :
      DbStep w ⟨w.nextId + 1,w.inFlight ++ [⟨w.nextId,relevance,abiJson,sourceId⟩],w.committed⟩
  | commit (n : ℕ) (before after committed : List AbiRow) (r : AbiRow) :
      DbStep ⟨n,before ++ r :: after,committed⟩ ⟨n,before ++ after,committed ++ [r]⟩
  | abort (n : ℕ) (before after committed : List AbiRow) (r : AbiRow) :
      DbStep ⟨n,before ++ r :: after,committed⟩ ⟨n,before ++ after,committed⟩

/-- Where the service stands between two queries. `opening` keeps the cursor of
before, and `streaming` the rows that are still to be added. -/
inductive Phase (C : Caches)
  | notStarted
  | starting (last : Option ℕ)
  | idle (s : Service C)
  | opening (s : Service C) (previousLastAbiId : Option ℕ)
  | streaming (s : Service C) (rows : List Json)

/-- The id just read, with the other two queries asked of the rows visible now. -/
def queriesNow (last : Option ℕ) (w : World) (order : List AbiRow) : AbiQueries :=
  { AbiQueries.ofTable w.committed order with lastInsertedId := last }

/-- One query or one row of `init` and of `load_new_abis`. When rows are read,
`allowed` holds of the cursor and of the rows in flight. -/
inductive ServiceStep (L : Externals) (allowed : Option ℕ → List AbiRow → Prop) (w : World) :
    Phase C → Phase C → Prop
  | readFirstId : ServiceStep L allowed w .notStarted (.starting (getLastInsertedId w.committed))
  | init {last : Option ℕ} {order : List AbiRow} {s : Service C}
      (sorted : IsRelevanceOrder w.committed order) (ok : allowed last w.inFlight)
      (started : init L last (order.map AbiRow.abiJson) = .ok s) :
      ServiceStep L allowed w (.starting last) (.idle s)
  | readId {s : Service C} (free : s.lockLoadNewAbis = false) :
      ServiceStep L allowed w (.idle s)
        (.opening { s with lockLoadNewAbis := true, lastAbiId := getLastInsertedId w.committed }
          s.lastAbiId)
  | openStream {s : Service C} {previousLastAbiId : Option ℕ} {order : List AbiRow}
      (sorted : IsRelevanceOrder w.committed order) (ok : allowed s.lastAbiId w.inFlight) :
      ServiceStep L allowed w (.opening s previousLastAbiId)
        (.streaming s (pendingAbis (queriesNow s.lastAbiId w order) previousLastAbiId))
  | row {s t : Service C} {abi : Json} {rest : List Json} {updated : Bool}
      (added : addAbi L abi s = .ok updated t) :
      ServiceStep L allowed w (.streaming s (abi :: rest)) (.streaming t rest)
  | finish {s : Service C} : ServiceStep L allowed w (.streaming s [])
      (.idle { s with lockLoadNewAbis := false })

/-- Interleavings of transactions and of one service, from the empty table. -/
inductive Run (L : Externals) (allowed : Option ℕ → List AbiRow → Prop) : World → Phase C → Prop
  | start : Run L allowed ⟨1,[],[]⟩ .notStarted
  | db {w w' : World} {p : Phase C} (run : Run L allowed w p) (step : DbStep w w') :
      Run L allowed w' p
  | service {w : World} {p p' : Phase C} (run : Run L allowed w p)
      (step : ServiceStep L allowed w p p') : Run L allowed w p'

/-- Every row in flight has an id above the cursor. -/
def Ahead (cursor : Option ℕ) (inFlight : List AbiRow) : Prop :=
  ∀ c, cursor = some c → ∀ r ∈ inFlight, c < r.id

/-- A further reload that completes leaves every selector of the table in the index. -/
def LoadsAll (L : Externals) (w : World) (s : Service C) : Prop :=
  ∀ order, IsRelevanceOrder w.committed order → ∀ t,
    Completes L (AbiQueries.ofTable w.committed order) s t →
      ∀ r ∈ w.committed, ∀ k ∈ selectors L r.abiJson, k ∈ t.fnSelectorsWithAbis

section BigStep

/-- A reload that nothing interleaves with is a sequence of the steps above. -/
theorem completes_steps {w : World} {order : List AbiRow} {s t : Service C}
    (ho : IsRelevanceOrder w.committed order)
    (h : Completes L (AbiQueries.ofTable w.committed order) s t) :
    Relation.ReflTransGen (ServiceStep L (fun _ _ => True) w) (.idle s) (.idle t) := by
  obtain ⟨hlock,hall,rfl⟩ := completes_iff.mp h
  let withIndex (u : Service C) (index : Dict Bytes Json) : Service C :=
    { u with fnSelectorsWithAbis := index }
  have hrows : ∀ (rows : List Json) (u : Service C), (∀ abi ∈ rows, Loadable L abi) →
      Relation.ReflTransGen (ServiceStep L (fun _ _ => True) w) (.streaming u rows)
        (.streaming (withIndex u (Dict.mergeFirst (selectors L) u.fnSelectorsWithAbis rows)) []) := by
    intro rows
    induction rows with
    | nil => exact fun u _ => Relation.ReflTransGen.refl
    | cons abi rest ih =>
      intro u hu
      obtain ⟨updated,hadd⟩ := addAbi_loadable (hu abi (List.mem_cons_self ..)) u
      exact Relation.ReflTransGen.head (ServiceStep.row hadd)
        (ih _ fun a ha => hu a (List.mem_cons_of_mem _ ha))
  let opened : Service C :=
    { s with lockLoadNewAbis := true, lastAbiId := getLastInsertedId w.committed }
  let rows := pendingAbis (AbiQueries.ofTable w.committed order) s.lastAbiId
  let loaded := withIndex opened (Dict.mergeFirst (selectors L) s.fnSelectorsWithAbis rows)
  have hopen : ServiceStep L (fun _ _ => True) w (.opening opened s.lastAbiId)
      (.streaming opened rows) := ServiceStep.openStream ho trivial
  have hfinish : ServiceStep L (fun _ _ => True) w (.streaming loaded [])
      (.idle { loaded with lockLoadNewAbis := false }) := ServiceStep.finish
  have hlast : { loaded with lockLoadNewAbis := false } =
      s.reloaded L none (AbiQueries.ofTable w.committed order) := by
    rw [Service.reloaded, loadedAbis_of_loadable 0 hall]
    rcases s with ⟨index,multi,last,lock,abi,sel⟩
    subst hlock
    rfl
  rw [hlast] at hfinish
  exact ((Relation.ReflTransGen.single (ServiceStep.readId hlock)).tail hopen).trans
    ((hrows rows opened hall).tail hfinish)

end BigStep

section Invariant

/-- Up to the cursor every committed row is accounted for, and whatever is in
flight lies above it. -/
structure Coverage (w : World) (cursor : Option ℕ) (has : AbiRow → Prop) : Prop where
  row : ∀ c, cursor = some c → ∃ r ∈ w.committed, r.id = c
  loaded : ∀ c, cursor = some c → ∀ r ∈ w.committed, r.id ≤ c → has r
  ahead : Ahead cursor w.inFlight

def Indexed (L : Externals) (s : Service C) (r : AbiRow) : Prop :=
  ∀ k ∈ selectors L r.abiJson, k ∈ s.fnSelectorsWithAbis

def WorldInv (w : World) : Prop :=
  (∀ r ∈ w.committed, r.id < w.nextId) ∧ ∀ r ∈ w.inFlight, r.id < w.nextId

def PhaseInv (L : Externals) (w : World) : Phase C → Prop
  | .notStarted => True
  | .starting last => ∀ c, last = some c → ∃ r ∈ w.committed, r.id = c
  | .idle s => Coverage w s.lastAbiId (Indexed L s)
  | .opening s previous => Coverage w previous (Indexed L s) ∧
      (∀ c, s.lastAbiId = some c → ∃ r ∈ w.committed, r.id = c) ∧
      ∀ p, previous = some p → ∃ c, s.lastAbiId = some c ∧ p ≤ c
  | .streaming s rows => Coverage w s.lastAbiId fun r => Indexed L s r ∨ r.abiJson ∈ rows

theorem DbStep.committed {w w' : World} (hs : DbStep w w') {r : AbiRow} (hr : r ∈ w.committed) :
    r ∈ w'.committed := by
  cases hs with
  | begin => exact hr
  | commit => exact List.mem_append_left _ hr
  | abort => exact hr

/-- Only rows in flight are committed. -/
theorem DbStep.of_committed {w w' : World} (hs : DbStep w w') {r : AbiRow} (hr : r ∈ w'.committed) :
    r ∈ w.committed ∨ r ∈ w.inFlight := by
  cases hs with
  | begin => exact .inl hr
  | commit n before after committed q =>
    rcases List.mem_append.mp hr with hr | hr
    · exact .inl hr
    · rw [List.mem_singleton.mp hr]
      exact .inr (List.mem_append_right _ (List.mem_cons_self ..))
  | abort => exact .inl hr

/-- A row in flight has been in flight before, or takes the next id. -/
theorem DbStep.of_inFlight {w w' : World} (hs : DbStep w w') {r : AbiRow} (hr : r ∈ w'.inFlight) :
    r ∈ w.inFlight ∨ r.id = w.nextId ∧ w'.nextId = w.nextId + 1 := by
  have hleft : ∀ (before after : List AbiRow) (q : AbiRow), r ∈ before ++ after →
      r ∈ before ++ q :: after := by
    intro before after q hr
    rcases List.mem_append.mp hr with hr | hr
    · exact List.mem_append_left _ hr
    · exact List.mem_append_right _ (List.mem_cons_of_mem _ hr)
  cases hs with
  | begin =>
    rcases List.mem_append.mp hr with hr | hr
    · exact .inl hr
    · rw [List.mem_singleton.mp hr]
      exact .inr ⟨rfl,rfl⟩
  | commit => exact .inl (hleft _ _ _ hr)
  | abort => exact .inl (hleft _ _ _ hr)

theorem DbStep.nextId_le {w w' : World} (hs : DbStep w w') : w.nextId ≤ w'.nextId := by
  cases hs with
  | begin => exact Nat.le_succ _
  | commit => exact Nat.le_refl _
  | abort => exact Nat.le_refl _

theorem worldInv_step {w w' : World} (h : WorldInv w) (hs : DbStep w w') : WorldInv w' := by
  have hle := hs.nextId_le
  constructor
  · intro r hr
    rcases hs.of_committed hr with hr | hr
    · exact (h.1 r hr).trans_le hle
    · exact (h.2 r hr).trans_le hle
  · intro r hr
    rcases hs.of_inFlight hr with hr | ⟨hid,hnext⟩
    · exact (h.2 r hr).trans_le hle
    · omega

/-- A transaction step keeps the coverage: an inserted row takes an id above the
cursor, and only rows above it are committed. -/
theorem coverage_step {w w' : World} {cursor : Option ℕ} {has : AbiRow → Prop} (hw : WorldInv w)
    (h : Coverage w cursor has) (hs : DbStep w w') : Coverage w' cursor has where
  row := by
    intro c hc
    obtain ⟨r,hr,hid⟩ := h.row c hc
    exact ⟨r,hs.committed hr,hid⟩
  loaded := by
    intro c hc r hr hle
    rcases hs.of_committed hr with hr | hr
    · exact h.loaded c hc r hr hle
    · exact absurd (h.ahead c hc r hr) (Nat.not_lt.mpr hle)
  ahead := by
    intro c hc r hr
    rcases hs.of_inFlight hr with hr | ⟨hid,_⟩
    · exact h.ahead c hc r hr
    · obtain ⟨q,hq,hcursor⟩ := h.row c hc
      have hlt := hw.1 q hq
      omega

theorem phaseInv_db {w w' : World} {p : Phase C} (hw : WorldInv w) (h : PhaseInv L w p)
    (hs : DbStep w w') : PhaseInv L w' p := by
  have hrow : ∀ {last : Option ℕ}, (∀ c, last = some c → ∃ r ∈ w.committed, r.id = c) →
      ∀ c, last = some c → ∃ r ∈ w'.committed, r.id = c := by
    intro last hlast c hc
    obtain ⟨r,hr,hid⟩ := hlast c hc
    exact ⟨r,hs.committed hr,hid⟩
  cases p with
  | notStarted => trivial
  | starting last => exact hrow h
  | idle s => exact coverage_step hw h hs
  | opening s previous => exact ⟨coverage_step hw h.1 hs,hrow h.2.1,h.2.2⟩
  | streaming s rows => exact coverage_step hw h hs

/-- When the rows are read, what the old cursor covers and what the stream brings
cover everything up to the new cursor. -/
theorem coverage_open {w : World} {s : Service C} {previous : Option ℕ} {order : List AbiRow}
    (h : PhaseInv L w (.opening s previous)) (ho : IsRelevanceOrder w.committed order)
    (hahead : Ahead s.lastAbiId w.inFlight) : PhaseInv L w
      (.streaming s (pendingAbis (queriesNow s.lastAbiId w order) previous)) := by
  obtain ⟨hcov,hrow,hle⟩ := h
  refine ⟨hrow,fun c hc r hr hrc => ?_,hahead⟩
  cases previous with
  | none => exact Or.inr (List.mem_map_of_mem (ho.1.mem_iff.mpr hr))
  | some p =>
    by_cases hrp : r.id ≤ p
    · exact Or.inl (hcov.loaded p rfl r hr hrp)
    · right
      have hlt : p < c := by omega
      have hpend : pendingAbis (queriesNow s.lastAbiId w order) (some p) =
          (getAbisWithIdGreaterThan w.committed p).map AbiRow.abiJson :=
        pendingAbis_of_lt hc hlt
      rw [hpend]
      exact List.mem_map_of_mem (mem_getAbisWithIdGreaterThan.mpr ⟨hr,not_le.mp hrp⟩)

theorem phaseInv_service {w : World} {p p' : Phase C} (h : PhaseInv L w p)
    (hs : ServiceStep L Ahead w p p') : PhaseInv L w p' := by
  cases hs with
  | readFirstId => exact fun c hc => exists_of_getLastInsertedId hc
  | @init last order s ho hahead hinit =>
    obtain ⟨_,_,rfl⟩ := init_eq_ok_iff.mp hinit
    refine ⟨h,fun c _ r hr _ k hk => ?_,hahead⟩
    exact (Dict.mem_mergeLast (selectors L)).mpr
      (Or.inr ⟨r.abiJson,List.mem_map_of_mem (ho.1.mem_iff.mpr hr),hk⟩)
  | readId hfree =>
    refine ⟨⟨h.row,h.loaded,h.ahead⟩,fun c hc => exists_of_getLastInsertedId hc,fun p hp => ?_⟩
    obtain ⟨r,hr,rfl⟩ := h.row p hp
    exact exists_getLastInsertedId hr
  | openStream ho hahead => exact coverage_open h ho hahead
  | @row s t abi rest updated hadd =>
    obtain ⟨_,rfl⟩ := addAbi_eq_ok hadd
    refine ⟨h.row,fun c hc r hr hrc => ?_,h.ahead⟩
    rcases h.loaded c hc r hr hrc with hk | hrows
    · exact Or.inl fun k hmem => Dict.mem_fillMissing_items.mpr (Or.inl (hk k hmem))
    · rcases List.mem_cons.mp hrows with heq | hrest
      · refine Or.inl fun k hmem => Dict.mem_fillMissing_items.mpr (Or.inr ?_)
        rwa [heq] at hmem
      · exact Or.inr hrest
  | finish =>
    refine ⟨h.row,fun c hc r hr hrc => ?_,h.ahead⟩
    rcases h.loaded c hc r hr hrc with hk | hnil
    · exact hk
    · cases hnil

theorem run_inv {w : World} {p : Phase C} (h : Run L Ahead w p) : WorldInv w ∧ PhaseInv L w p := by
  induction h with
  | start =>
    exact ⟨⟨fun r hr => absurd hr List.not_mem_nil,fun r hr => absurd hr List.not_mem_nil⟩,trivial⟩
  | db _ hs ih => exact ⟨worldInv_step ih.1 hs,phaseInv_db ih.1 ih.2 hs⟩
  | service _ hs ih => exact ⟨ih.1,phaseInv_service ih.2 hs⟩

/-- If no row in flight is at or below the cursor whenever rows are read, then
once all transactions have ended one more reload loads whatever is missing. -/
theorem run_loadsAll {w : World} {s : Service C} (h : Run L Ahead w (.idle s)) : LoadsAll L w s := by
  intro order ho t ht r hr k hk
  have hcov : Coverage w s.lastAbiId (Indexed L s) := (run_inv h).2
  exact ht.mem_of_row ho hcov.loaded hr hk

end Invariant

section Histories
open Reference

def approveRow : AbiRow := ⟨1,0,.arr [approveErc20],1⟩
def transferRow : AbiRow := ⟨2,0,.arr [transferFunction],1⟩

/-- Two transactions insert; the service starts when one of them has committed,
and the other commits after that. -/
theorem run_start_between (allowed : Option ℕ → List AbiRow → Prop) (first second : AbiRow)
    (h : (first = approveRow ∧ second = transferRow) ∨ (first = transferRow ∧ second = approveRow))
    (hallowed : allowed (some first.id) [second]) :
    ∃ s : Service Caches.leastRecentlyUsed,
      init packages (some first.id) [first.abiJson] = .ok s ∧
        Run packages allowed ⟨3,[],[first, second]⟩ (.idle s) := by
  have hbegin : Run packages allowed ⟨3,[approveRow, transferRow],[]⟩
      (.notStarted : Phase Caches.leastRecentlyUsed) :=
    Run.db (Run.db Run.start (DbStep.begin ⟨1,[],[]⟩ 0 (.arr [approveErc20]) 1))
      (DbStep.begin ⟨2,[approveRow],[]⟩ 0 (.arr [transferFunction]) 1)
  have hcommit : Run packages allowed ⟨3,[second],[first]⟩
      (.notStarted : Phase Caches.leastRecentlyUsed) := by
    rcases h with ⟨rfl,rfl⟩ | ⟨rfl,rfl⟩
    · exact Run.db hbegin (DbStep.commit 3 [] [transferRow] [] approveRow)
    · exact Run.db hbegin (DbStep.commit 3 [approveRow] [] [] transferRow)
  have hload : ∀ abi ∈ [first.abiJson], Loadable packages abi := by
    intro abi ha
    rw [List.mem_singleton.mp ha]
    rcases h with ⟨rfl,_⟩ | ⟨rfl,_⟩
    · exact ⟨_,rfl⟩
    · exact ⟨_,rfl⟩
  obtain ⟨s,hs⟩ : ∃ s : Service Caches.leastRecentlyUsed,
      init packages (some first.id) [first.abiJson] = .ok s :=
    ⟨_,init_eq_ok_iff.mpr ⟨hload,⟨_,rfl⟩,rfl⟩⟩
  have ho : IsRelevanceOrder [first] [first] := ⟨List.Perm.refl _,List.pairwise_singleton _ _⟩
  have hstep : ServiceStep packages allowed ⟨3,[second],[first]⟩ (.starting (some first.id))
      (.idle s) := ServiceStep.init ho hallowed hs
  exact ⟨s,hs,Run.db (Run.service (Run.service hcommit ServiceStep.readFirstId) hstep)
    (DbStep.commit 3 [] [] [first] second)⟩

/-- The row with the lower id commits after the service has started on the other
one: no later reload finds it. -/
theorem not_loadsAll_late_commit :
    ¬ ∀ (w : World) (s : Service Caches.leastRecentlyUsed),
      Run packages (fun _ _ => True) w (.idle s) → w.inFlight = [] → LoadsAll packages w s := by
  intro h
  obtain ⟨s,hs,hrun⟩ :=
    run_start_between (fun _ _ => True) transferRow approveRow (Or.inr ⟨rfl,rfl⟩) trivial
  obtain ⟨_,_,rfl⟩ := init_eq_ok_iff.mp hs
  have ho : IsRelevanceOrder [transferRow, approveRow] [transferRow, approveRow] :=
    ⟨List.Perm.refl _,List.pairwise_pair.mpr (le_refl (0 : Int))⟩
  have hpend : pendingAbis (AbiQueries.ofTable [transferRow, approveRow] [transferRow, approveRow])
      (some transferRow.id) = [] := rfl
  have hlost := h _ _ hrun rfl _ ho _ (completes_nothing_pending rfl hpend) approveRow (by simp)
  have hk : ([0x09, 0x5e, 0xa7, 0xb3] : Bytes) ∈ selectors packages approveRow.abiJson := by
    decide
  have hmissing : ([0x09, 0x5e, 0xa7, 0xb3] : Bytes) ∉
      Dict.mergeLast (selectors packages) ∅ [transferRow.abiJson] := by
    decide
  exact hmissing (hlost _ hk)

/-- The row with the higher id commits late, and the next reload finds it. -/
theorem loadsAll_late_commit : ∃ s : Service Caches.leastRecentlyUsed,
    Run packages Ahead ⟨3,[],[approveRow, transferRow]⟩ (.idle s) ∧
      LoadsAll packages ⟨3,[],[approveRow, transferRow]⟩ s := by
  have hahead : Ahead (some approveRow.id) [transferRow] := by
    intro c hc r hr
    cases hc
    rw [List.mem_singleton.mp hr]
    exact Nat.one_lt_two
  obtain ⟨s,_,hrun⟩ := run_start_between Ahead approveRow transferRow (Or.inl ⟨rfl,rfl⟩) hahead
  exact ⟨s,hrun,run_loadsAll hrun⟩

end Histories
end SafeDecoder.CursorRaces
