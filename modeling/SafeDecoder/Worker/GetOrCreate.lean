import Mathlib.Algebra.BigOperators.Group.List.Basic
import Mathlib.Algebra.GroupWithZero.Nat
import SafeDecoder.Library.TwoPhase
import SafeDecoder.Worker.System

/-! # Getting or creating a row under contention

Sessions call `Contract.get_or_create` and `Abi.get_or_create_abi` side by side.
An insert reserves its key until it is committed, and others who want the key
wait. Each key that was absent is created by one call, and every call for it
returns that row.
-/
namespace SafeDecoder.GetOrCreate
open Worker Machine

variable {pg : Postgres}

section Definitions

inductive Key
  | contract (k : ContractKey)
  | abi (hash : Bytes)
  deriving DecidableEq

inductive Row
  | contract (c : ContractRow)
  | abi (r : AbiRow)

inductive Call
  | contract (address : Bytes) (chainId : Int) (values : ContractValues)
  | abi (abiJson : Json) (sourceId : ℕ) (relevance : Int)

def Call.key (pg : Postgres) : Call → Key
  | contract address chainId _ => .contract (address,chainId)
  | abi abiJson _ _ => .abi (pg.abiHash abiJson)

/-- The arguments violate no constraint but the unique keys. -/
def Call.Valid (pg : Postgres) : Call → Prop
  | contract _ chainId values => fitsBigInt chainId ∧ values.accepted
  | abi abiJson _ _ => pg.acceptsJson abiJson

def Call.program : Call → Worker.Task (Row × Bool)
  | contract address chainId values => do
    let (row,created) ← Contract.getOrCreate address chainId values
    return (.contract row,created)
  | abi abiJson sourceId relevance => do
    let (row,created) ← Abi.getOrCreateAbi abiJson sourceId relevance
    return (.abi row,created)

/-- A session that makes one call after the other. -/
def session : List Call → Worker.Task (List (Row × Bool))
  | [] => return []
  | call :: rest => do
    let result ← call.program
    let results ← session rest
    return result :: results

/-- The sessions, with an insert and its commit as one step. -/
abbrev sessions (pg : Postgres) :
    Machine Command Command.Answer PyError (World pg) DbSession Empty (List Call) (List (Row × Bool)) :=
  pool pg (fun _ _ _ _ => True) session

/-- The unique key that an insert takes. -/
def reservation (pg : Postgres) : Command → Option Key
  | .insertContract address chainId _ => some (.contract (address,chainId))
  | .insertAbi abiJson _ _ => some (.abi (pg.abiHash abiJson))
  | _ => none

/-- The sessions, with an insert and its commit as two steps. -/
abbrev contendingSessions (pg : Postgres) := (sessions pg).split (reservation pg)

def lookup (w : World pg) : Key → Option Row
  | .contract k => (w.contract k).map Row.contract
  | .abi hash => (w.db.abis.find? fun r => pg.abiHash r.abiJson = hash).map Row.abi

/-- No row is changed. -/
def Extends (w w' : World pg) : Prop := ∀ key row, lookup w key = some row → lookup w' key = some row

def NoDuplicates (w : World pg) : Prop :=
  (w.db.contracts.map ContractRow.key).Nodup ∧ (w.db.abis.map fun r => pg.abiHash r.abiJson).Nodup

/-- The keys of the calls that report that they have created their row. -/
def created (pg : Postgres) (calls : List Call) (results : List (Row × Bool)) : List Key :=
  (calls.zip results).filterMap fun e => if e.2.2 then some (e.1.key pg) else none

/-- A session, with what it has returned. -/
abbrev View := List Call × DbSession × Option (Except PyError (List (Row × Bool)))

/-- How often a session reports that it has created the row of the key. -/
def View.creations (pg : Postgres) (key : Key) (v : View) : ℕ :=
  match v.2.2 with
  | some (.ok results) => (created pg v.1 results).count key
  | _ => 0

/-- What holds of the sessions `vs` and of the database at any moment. -/
structure Atomic (w : World pg) (vs : List View) (w' : World pg) : Prop where
  unique : NoDuplicates w'
  unchanged : Extends w w'
  noneRaises : ∀ v ∈ vs, ∀ e, v.2.2 ≠ some (.error e)
  returns : ∀ v ∈ vs, ∀ results, v.2.2 = some (.ok results) → v.2.1 = active ∧
    List.Forall₂ (fun call result => lookup w' (call.key pg) = some result.1) v.1 results
  createdOnce : (∀ v ∈ vs, v.2.2.isSome) → ∀ v ∈ vs, ∀ call ∈ v.1,
    (vs.map (View.creations pg (call.key pg))).sum =
      if lookup w (call.key pg) = none then 1 else 0

end Definitions

section Rows

theorem lookup_abi (w : World pg) (abiJson : Json) :
    lookup w (.abi (pg.abiHash abiJson)) = (w.abiOf abiJson).map Row.abi := rfl

theorem Extends.refl (w : World pg) : Extends w w := fun _ _ h => h

theorem Extends.trans {w w' w'' : World pg} (h : Extends w w') (h' : Extends w' w'') : Extends w w'' :=
  fun key row hrow => h' key row (h key row hrow)

/-- A row is inserted where there was none. -/
structure Inserts (key : Key) (row : Row) (w w' : World pg) : Prop where
  absent : lookup w key = none
  same : lookup w' key = some row
  other : ∀ key', key' ≠ key → lookup w' key' = lookup w key'

theorem Inserts.extends {key : Key} {row : Row} {w w' : World pg} (h : Inserts key row w w') :
    Extends w w' := by
  intro key' row' hrow
  by_cases hkey : key' = key
  · rw [hkey, h.absent] at hrow
    cases hrow
  · rwa [h.other key' hkey]

theorem inserts_contract {w : World pg} {row : ContractRow} (h : w.Takes row) :
    Inserts (.contract row.key) (.contract row) w (w.addContract row h) where
  absent := by rw [lookup, (contract_eq_none w).mpr h.1, Option.map_none]
  same := by rw [lookup, contract_addContract, if_pos rfl, Option.map_some]
  other := by
    intro key' hkey
    cases key' with
    | contract k =>
      rw [lookup, lookup, contract_addContract, if_neg fun hk => hkey (congrArg Key.contract hk)]
    | abi hash => rfl

theorem inserts_abi {w : World pg} {abiJson : Json} {sourceId : ℕ} {relevance : Int}
    (h : pg.abiHash abiJson ∉ w.db.abis.map fun r => pg.abiHash r.abiJson) :
    Inserts (.abi (pg.abiHash abiJson)) (.abi ⟨w.nextAbiId,relevance,abiJson,sourceId⟩) w
      (w.addAbi abiJson sourceId relevance h) where
  absent := by rw [lookup_abi, (abiOf_eq_none w).mpr h, Option.map_none]
  same := by rw [lookup_abi, abiOf_addAbi, if_pos rfl, Option.map_some]
  other := by
    intro key' hkey
    cases key' with
    | contract k => rfl
    | abi hash =>
      have hne : pg.abiHash abiJson ≠ hash := fun heq => hkey (congrArg Key.abi heq.symm)
      simp [lookup, World.addAbi, List.find?_append, hne]

end Rows

section Tally
variable (w₀ : World pg) (n : ℕ)

/-- The inserts that have been committed, with the session that made them. -/
abbrev Inserted := List (ℕ × Key)

def upd (g : Inserted) (_ : World pg) : WorkerEvent Empty → Inserted
  | .own i (.insertContract address chainId _) (.ok _) => (i,.contract (address,chainId)) :: g
  | .own i (.insertAbi abiJson _ _) (.ok _) => (i,.abi (pg.abiHash abiJson)) :: g
  | _ => g

/-- How often a session has inserted a row with the key. -/
def own (g : Inserted) (i : ℕ) (key : Key) : ℕ := g.count (i,key)

/-- Every row that was not there before has been inserted once. -/
structure Kept (s : World pg × Inserted) : Prop where
  extends_start : Extends w₀ s.1
  absent : ∀ e ∈ s.2, lookup w₀ e.2 = none
  inserted : ∀ key, lookup s.1 key ≠ none → lookup w₀ key = none → key ∈ s.2.map Prod.snd
  there : ∀ e ∈ s.2, lookup s.1 e.2 ≠ none
  once : (s.2.map Prod.snd).Nodup
  lt : ∀ e ∈ s.2, e.1 < n

def discipline : Discipline (World pg × Inserted) where
  inv := Kept w₀ n
  rely := fun i s t => Extends s.1 t.1 ∧ ∀ key, own t.2 i key = own s.2 i key
  guar := fun i s t => Extends s.1 t.1 ∧ ∀ j, j ≠ i → ∀ key, own t.2 j key = own s.2 j key
  rely_refl := fun _ s => ⟨Extends.refl s.1,fun _ => rfl⟩
  rely_trans := fun _ _ _ _ h h' => ⟨h.1.trans h'.1,fun key => (h'.2 key).trans (h.2 key)⟩

variable {w₀ n}

theorem discipline_shared : (discipline w₀ n).Shared := fun hij h => ⟨h.1,h.2 _ hij.symm⟩

theorem upd_silent (g : Inserted) (w : World pg) {i : ℕ} (c : Command)
    (r : Except PyError c.Answer) (h : Silent c r) : upd g w (.own i c r) = g := by
  cases c <;> cases r <;> first | rfl | exact absurd h id

theorem regular (i : ℕ) : Regular (fun _ _ _ _ => True) (discipline w₀ n) i
    ((sessions pg).recorded upd i) :=
  recorded_regular id (fun g w c r h => upd_silent g w c r h)
    fun s => ⟨Extends.refl s.1,fun _ _ _ => rfl⟩

theorem own_cons (g : Inserted) (i j : ℕ) (key key' : Key) :
    own ((i,key) :: g) j key' = own g j key' + if i = j ∧ key = key' then 1 else 0 := by
  rw [own, own, List.count_cons]
  simp [Prod.ext_iff]

/-- What an insert does, for the session that inserts and for the others. -/
theorem Kept.insert {s : World pg × Inserted} (h : Kept w₀ n s) {key : Key} {row : Row}
    {w' : World pg} (hw : Inserts key row s.1 w') {i : ℕ} (hi : i < n) :
    Kept w₀ n (w',(i,key) :: s.2) ∧ (discipline w₀ n).guar i s (w',(i,key) :: s.2) := by
  have habsent : lookup w₀ key = none := by
    cases hrow : lookup w₀ key with
    | none => rfl
    | some row =>
      have hstays := h.extends_start key row hrow
      rw [hw.absent] at hstays
      cases hstays
  refine ⟨⟨h.extends_start.trans hw.extends,?_,fun key' hthere hnew => ?_,?_,?_,?_⟩,hw.extends,
    fun j hj key' => ?_⟩
  · exact List.forall_mem_cons.mpr ⟨habsent,h.absent⟩
  · by_cases hkey : key' = key
    · exact hkey ▸ List.mem_cons_self
    · rw [hw.other key' hkey] at hthere
      exact List.mem_cons_of_mem _ (h.inserted key' hthere hnew)
  · refine List.forall_mem_cons.mpr ⟨by simp [hw.same],fun e he hnone => ?_⟩
    obtain ⟨row',hrow⟩ := Option.ne_none_iff_exists'.mp (h.there e he)
    rw [hw.extends e.2 row' hrow] at hnone
    cases hnone
  · refine List.nodup_cons.mpr ⟨fun hmem => ?_,h.once⟩
    obtain ⟨e,he,rfl⟩ := List.mem_map.mp hmem
    exact h.there e he hw.absent
  · exact List.forall_mem_cons.mpr ⟨hi,h.lt⟩
  · rw [own_cons, if_neg fun hc => hj hc.1.symm, Nat.add_zero]

end Tally

section Calls
variable {w₀ : World pg} {n i : ℕ}

/-- What a call has returned, and what its session had inserted before it. -/
def CallOutcome (i : ℕ) (base : World pg) (before : Key → ℕ) (call : Call) :
    Except PyError (Row × Bool) → World pg × Inserted → DbSession → Prop
  | .ok (row,new), s, l => l = active ∧ Extends base s.1 ∧ lookup s.1 (call.key pg) = some row ∧
    ∀ key, own s.2 i key = before key + if new ∧ call.key pg = key then 1 else 0
  | .error _, _, _ => False

theorem call_meets (hi : i < n) {call : Call} (hvalid : call.Valid pg) {s : World pg × Inserted}
    {base : World pg} (hbase : Extends base s.1) {before : Key → ℕ}
    (hown : ∀ key, own s.2 i key = before key) :
    Meets (discipline w₀ n) i ((sessions pg).recorded upd i) (CallOutcome i base before call)
      call.program s active := by
  have hnew : ∀ {t : World pg × Inserted} {row : Row} {w' : World pg},
      (discipline w₀ n).rely i s t → Kept w₀ n t → Inserts (call.key pg) row t.1 w' →
      (Kept w₀ n (w',(i,call.key pg) :: t.2) ∧
        (discipline w₀ n).guar i t (w',(i,call.key pg) :: t.2)) ∧
      Meets (discipline w₀ n) i ((sessions pg).recorded upd i) (CallOutcome i base before call)
        (.ret (row,true)) (w',(i,call.key pg) :: t.2) active := by
    intro t row w' ht hkept hw
    refine ⟨hkept.insert hw hi,Meets.ret fun u hu _ => ⟨rfl,?_,hu.1 _ _ hw.same,fun key => ?_⟩⟩
    · exact (hbase.trans ht.1).trans (hw.extends.trans hu.1)
    · rw [hu.2 key, own_cons, ht.2 key, hown key]
      simp
  have hfound : ∀ {t : World pg × Inserted} {row : Row}, (discipline w₀ n).rely i s t →
      lookup t.1 (call.key pg) = some row →
      Meets (discipline w₀ n) i ((sessions pg).recorded upd i) (CallOutcome i base before call)
        (.ret (row,false)) t active := by
    intro t row ht hrow
    refine Meets.ret fun u hu _ => ⟨rfl,hbase.trans (ht.1.trans hu.1),hu.1 _ _ hrow,fun key => ?_⟩
    rw [hu.2 key, ht.2 key, hown key]
    simp
  have hstays : ∀ t u : World pg × Inserted, (discipline w₀ n).rely i t u →
      ∀ key, lookup t.1 key ≠ none → lookup u.1 key ≠ none := by
    intro t u ht key hrow
    obtain ⟨row,hrow⟩ := Option.ne_none_iff_exists'.mp hrow
    rw [ht.1 key row hrow]
    simp
  cases call with
  | contract address chainId values =>
    refine (regular i).getOrCreate (fun t u _ ht _ hrow hnone => ?_)
      (fun t ht hit _ _ hfresh g' he => ?_) (fun t c ht _ _ _ hc => ?_) fun t _ _ hno => ?_
    · refine hstays t u ht (.contract (address,chainId)) ?_ ?_
      · simpa [lookup] using hrow
      · rw [lookup, hnone, Option.map_none]
    · obtain rfl : g' = _ := he.2
      exact hnew ht hit (inserts_contract hfresh)
    · exact hfound ht (by rw [Call.key, lookup, hc, Option.map_some])
    · exact absurd hvalid hno
  | abi abiJson sourceId relevance =>
    refine (regular i).getOrCreateAbi (fun t u _ ht _ hrow hnone => ?_)
      (fun t ht hit _ hfresh g' he => ?_) (fun t r ht _ _ hr => ?_) fun t _ _ hno => ?_
    · refine hstays t u ht (.abi (pg.abiHash abiJson)) ?_ ?_
      · simpa [lookup_abi] using hrow
      · rw [lookup_abi, hnone, Option.map_none]
    · obtain rfl : g' = _ := he.2
      exact hnew ht hit (inserts_abi hfresh)
    · exact hfound ht (by rw [Call.key, lookup_abi, hr, Option.map_some])
    · exact absurd hvalid hno

/-- What a session has returned. -/
def SessionOutcome (i : ℕ) (base : World pg) (before : Key → ℕ) (calls : List Call) :
    Except PyError (List (Row × Bool)) → World pg × Inserted → DbSession → Prop
  | .ok results, s, l => l = active ∧ Extends base s.1 ∧
    List.Forall₂ (fun call result => lookup s.1 (call.key pg) = some result.1) calls results ∧
    ∀ key, own s.2 i key = before key + (created pg calls results).count key
  | .error _, _, _ => False

theorem count_created (call : Call) (rest : List Call) (row : Row) (new : Bool)
    (results : List (Row × Bool)) (key : Key) :
    (created pg (call :: rest) ((row,new) :: results)).count key =
      (created pg rest results).count key + if new ∧ call.key pg = key then 1 else 0 := by
  cases new with
  | false => simp [created]
  | true => simp [created, List.count_cons]

theorem session_meets (hi : i < n) {calls : List Call} (hvalid : ∀ call ∈ calls, call.Valid pg)
    {s : World pg × Inserted} {base : World pg} (hbase : Extends base s.1) {before : Key → ℕ}
    (hown : ∀ key, own s.2 i key = before key) :
    Meets (discipline w₀ n) i ((sessions pg).recorded upd i) (SessionOutcome i base before calls)
      (session calls) s active := by
  induction calls generalizing s base before with
  | nil =>
    refine Meets.ret fun t ht _ => ⟨rfl,hbase.trans ht.1,.nil,fun key => ?_⟩
    rw [ht.2 key, hown key]
    rfl
  | cons call rest ih =>
    obtain ⟨hfirst,hrest⟩ := List.forall_mem_cons.mp hvalid
    refine Meets.bind (call_meets hi hfirst hbase hown) (fun result t l _ hcall => ?_)
      fun _ _ _ _ h => h.elim
    obtain ⟨row,new⟩ := result
    obtain ⟨rfl,hbase',hrow,hown'⟩ := hcall
    refine Meets.bind (ih hrest (Extends.refl t.1) hown') (fun results u l _ hall => ?_)
      fun _ _ _ _ h => h.elim
    obtain ⟨rfl,hext,hall,hcount⟩ := hall
    refine Meets.ret fun v hv _ => ⟨rfl,hbase'.trans (hext.trans hv.1),.cons ?_ ?_,fun key => ?_⟩
    · exact hv.1 _ _ (hext _ _ hrow)
    · exact hall.imp fun _ _ h => hv.1 _ _ h
    · rw [hv.2 key, hcount key, count_created, Nat.add_assoc]
      exact congrArg (before key + ·) (Nat.add_comm _ _)

end Calls

section Sessions
variable {w : World pg} {callss : List (List Call)}

theorem admits (n : ℕ) : (sessions pg).Admits upd (discipline w n) (fun _ k => k = n)
    fun i calls r s l => SessionOutcome i w (fun _ => 0) calls r s l :=
  admits_closed discipline_shared (fun _ _ _ _ => id) id

theorem sessions_sound (hvalid : ∀ calls ∈ callss, ∀ call ∈ calls, call.Valid pg)
    {tr : List (World pg × WorkerEvent Empty)}
    {c : Config Command Command.Answer PyError (World pg) DbSession (List Call) (List (Row × Bool))}
    (hrun : (sessions pg).Run ((sessions pg).initial w callss) tr c) :
    (sessions pg).Sound upd (discipline w callss.length) (fun _ k => k = callss.length)
      (fun i calls r s l => SessionOutcome i w (fun _ => 0) calls r s l) c (observe upd [] tr) := by
  have hstart : Kept w callss.length (w,[]) :=
    { extends_start := Extends.refl w
      absent := fun _ h => nomatch h
      inserted := fun _ hthere hnew => absurd hnew hthere
      there := fun _ h => nomatch h
      once := List.nodup_nil
      lt := fun _ h => nomatch h }
  refine hrun.sound (admits _) (sound_initial hstart rfl fun i calls hi => ?_)
  exact session_meets (List.getElem?_eq_some_iff.mp hi).1 (hvalid calls (List.mem_of_getElem? hi))
    (Extends.refl w) fun _ => rfl

theorem sum_indicator (p : Prop) [Decidable p] (i n : ℕ) (hi : i < n) :
    ((List.range n).map fun j => if i = j ∧ p then 1 else 0).sum = if p then 1 else 0 := by
  induction n with
  | zero => omega
  | succ n ih =>
    rw [List.range_succ, List.map_append, List.sum_append, List.map_singleton, List.sum_singleton]
    by_cases hn : i = n
    · subst hn
      have hzero : ∀ j ∈ List.range i, (if i = j ∧ p then 1 else 0) = 0 := by
        intro j hj
        exact if_neg fun h => absurd (List.mem_range.mp hj) (by omega)
      rw [List.map_congr_left hzero]
      simp
    · have hlast : (if i = n ∧ p then 1 else 0) = 0 := if_neg fun h => hn h.1
      rw [ih (by omega), hlast, Nat.add_zero]

/-- Every insert has been made by one of the sessions. -/
theorem sum_own {g : Inserted} {n : ℕ} (hlt : ∀ e ∈ g, e.1 < n) (key : Key) :
    ((List.range n).map fun i => own g i key).sum = (g.map Prod.snd).count key := by
  induction g with
  | nil => simp [own]
  | cons e g ih =>
    obtain ⟨i,key'⟩ := e
    obtain ⟨hi,hrest⟩ := List.forall_mem_cons.mp hlt
    simp only [own_cons, List.sum_map_add, List.map_cons, List.count_cons, beq_iff_eq]
    rw [ih hrest, sum_indicator _ i n hi]

theorem count_inserted {w' : World pg} {g : Inserted} {n : ℕ} (h : Kept w n (w',g)) {key : Key}
    (hthere : lookup w' key ≠ none) :
    (g.map Prod.snd).count key = if lookup w key = none then 1 else 0 := by
  by_cases hnew : lookup w key = none
  · rw [if_pos hnew]
    exact List.count_eq_one_of_mem h.once (h.inserted key hthere hnew)
  · rw [if_neg hnew]
    apply List.count_eq_zero.mpr
    intro hmem
    obtain ⟨e,he,rfl⟩ := List.mem_map.mp hmem
    exact hnew (h.absent e he)

theorem exists_of_mem {calls : List Call} {results : List (Row × Bool)} {p : Call → Row × Bool → Prop}
    (h : List.Forall₂ p calls results) {call : Call} (hcall : call ∈ calls) : ∃ result, p call result := by
  induction h with
  | nil => cases hcall
  | cons h _ ih =>
    rcases List.mem_cons.mp hcall with rfl | hcall
    · exact ⟨_,h⟩
    · exact ih hcall

theorem sessions_atomic (hvalid : ∀ calls ∈ callss, ∀ call ∈ calls, call.Valid pg)
    {tr : List (World pg × WorkerEvent Empty)}
    {c : Config Command Command.Answer PyError (World pg) DbSession (List Call) (List (Row × Bool))}
    (hrun : (sessions pg).Run ((sessions pg).initial w callss) tr c) :
    Atomic w c.views c.state := by
  have hsound := sessions_sound hvalid hrun
  have houtcome : ∀ {i : ℕ} {v : View}, c.views[i]? = some v → ∀ {r}, v.2.2 = some r →
      SessionOutcome i w (fun _ => 0) v.1 r (c.state,observe upd [] tr) v.2.1 := by
    intro i v hv r hr
    rw [Config.views, List.getElem?_map, Option.map_eq_some_iff] at hv
    obtain ⟨th,hth,rfl⟩ := hv
    exact hsound.outcome hth hr
  refine ⟨⟨c.state.db.contractKeys,c.state.abiHashes⟩,hsound.inv.extends_start,?_,?_,?_⟩
  · intro v hv e he
    obtain ⟨i,hi⟩ := List.mem_iff_getElem?.mp hv
    exact (houtcome hi he).elim
  · intro v hv results hr
    obtain ⟨i,hi⟩ := List.mem_iff_getElem?.mp hv
    obtain ⟨hl,_,hall,_⟩ := houtcome hi hr
    exact ⟨hl,hall⟩
  · intro hfinished v hv call hcall
    obtain ⟨i,hi⟩ := List.mem_iff_getElem?.mp hv
    obtain ⟨r,hr⟩ := Option.isSome_iff_exists.mp (hfinished v hv)
    have hthere : lookup c.state (call.key pg) ≠ none := by
      cases r with
      | error e => exact (houtcome hi hr).elim
      | ok results =>
        obtain ⟨_,_,hall,_⟩ := houtcome hi hr
        obtain ⟨result,hrow⟩ := exists_of_mem hall hcall
        simp [hrow]
    have hlength : c.views.length = callss.length := by
      rw [Config.views, List.length_map, hsound.size]
    have hsum : c.views.map (View.creations pg (call.key pg)) =
        (List.range callss.length).map fun i => own (observe upd [] tr) i (call.key pg) := by
      apply List.ext_getElem (by simp [hlength])
      intro j hj _
      rw [List.length_map] at hj
      rw [List.getElem_map, List.getElem_map, List.getElem_range]
      obtain ⟨r',hr'⟩ := Option.isSome_iff_exists.mp (hfinished _ (List.getElem_mem hj))
      cases r' with
      | error e => exact (houtcome (List.getElem?_eq_getElem hj) hr').elim
      | ok results =>
        obtain ⟨_,_,_,hcount⟩ := houtcome (List.getElem?_eq_getElem hj) hr'
        rw [hcount, Nat.zero_add, View.creations, hr']
    rw [hsum, sum_own hsound.inv.lt, count_inserted hsound.inv hthere]

theorem sessions_extend (hvalid : ∀ calls ∈ callss, ∀ call ∈ calls, call.Valid pg)
    {tr tr' : List (World pg × WorkerEvent Empty)}
    {d c : Config Command Command.Answer PyError (World pg) DbSession (List Call) (List (Row × Bool))}
    (hbefore : (sessions pg).Run ((sessions pg).initial w callss) tr d)
    (hafter : (sessions pg).Run d tr' c) : Extends d.state c.state :=
  hafter.keeps (admits _) Extends.refl Extends.trans (fun h => h.1) (fun h => h.elim)
    (sessions_sound hvalid hbefore)

/-- Under contention every key that was absent is created by one call, every call
returns the row of its key and none raises; rows are never changed, and somebody
can go on until all are through. -/
theorem contending_atomic (hvalid : ∀ calls ∈ callss, ∀ call ∈ calls, call.Valid pg)
    {tr tr' : List ((World pg × List Key) × Event (Phase Command) (Phase.Answer Command.Answer) PyError Empty)}
    {d c : Config (Phase Command) (Phase.Answer Command.Answer) PyError (World pg × List Key) DbSession
      (List Call) (List (Row × Bool))}
    (hbefore : (contendingSessions pg).Run ((contendingSessions pg).initial (w,[]) callss) tr d)
    (hafter : (contendingSessions pg).Run d tr' c) :
    Atomic w c.views c.state.1 ∧ Extends d.state.1 c.state.1 ∧
      (c.finished ∨ ∃ e c', (contendingSessions pg).Step c e c') := by
  have hstart : Sim (reservation pg) ((contendingSessions pg).initial (w,[]) callss)
      ((sessions pg).initial w callss) := sim_initial w callss
  have hholding : Holding (reservation pg) ((contendingSessions pg).initial (w,[]) callss) :=
    ⟨List.nodup_nil,fun _ h => nomatch h⟩
  obtain ⟨_,d',hrun,hsim⟩ := hbefore.sim hstart
  obtain ⟨_,c',hrun',hsim'⟩ := hafter.sim hsim
  have hcholding := hafter.holding hsim (hbefore.holding hstart hholding)
  have htotal : ∀ w l c, ∃ r w' l', (sessions pg).exec w l c r w' l' :=
    fun _ _ _ => ⟨_,_,_,unasked,rfl,fun _ _ _ _ => trivial⟩
  refine ⟨?_,?_,hsim'.progress htotal hcholding⟩
  · rw [hsim'.views, hsim'.state]
    exact sessions_atomic hvalid (hrun.trans hrun')
  · rw [hsim.state, hsim'.state]
    exact sessions_extend hvalid hrun hrun'

end Sessions

section Examples
open Reference

/-- Two sessions want the same contract. -/
def contenders : List (List Call) := [[.contract [1] 1 {}], [.contract [1] 1 { name := some "A" }]]

def player : (sessions database).Player :=
  poolPlayer session (fun _ _ _ => .ok none) fun _ _ _ => trivial

/-- The first session inserts; the second one fails to, rolls back and reads. -/
def contended : Played Command Command.Answer PyError (World database) DbSession Empty (List Call)
    (List (Row × Bool)) :=
  play player ((sessions database).initial (World.empty database) contenders)
    [.inl 0, .inl 1, .inl 1, .inl 1]

/-- One of the two sessions has created the row. -/
theorem contenders_createOnce :
    (contended.2.views.map (View.creations database (.contract ([1],1)))).sum = 1 := by
  have hrun : ∃ tr, (contendingSessions database).Run
      ((contendingSessions database).initial (World.empty database,[]) contenders) tr
      (settled (reservation database) contended.2) := by
    rw [← settled_initial]
    exact (play_run player _ _).split
  obtain ⟨tr,hrun⟩ := hrun
  have hvalid : ∀ calls ∈ contenders, ∀ call ∈ calls, call.Valid database := by
    simp [contenders, Call.Valid, ContractValues.accepted, fitsBigInt, acceptsText]
  have hviews : (settled (reservation database) contended.2).views = contended.2.views := rfl
  have hatomic := (contending_atomic hvalid hrun .refl).1
  rw [hviews] at hatomic
  have hfinished : ∀ v ∈ contended.2.views, v.2.2.isSome := by decide
  exact hatomic.createdOnce hfinished _ (List.mem_cons_self) _ (List.mem_cons_self)

end Examples
end SafeDecoder.GetOrCreate
