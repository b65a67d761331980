import SafeDecoder.Index.RowOrder

/-! # Relevance along the life of a service

A service that has started never replaces a function. Its index keeps the most
relevant functions of the table as long as no inserted row outranks the rows
that already define one of its selectors.
-/
namespace SafeDecoder.Relevance
open SelectorIndex RankedStream RowOrder
variable {L : Externals} {C : Caches} {abis order : List AbiRow} {s t : Service C}

/-- Histories of the table and of one service over it, from a start on a
non-empty table. Every inserted row satisfies `allowed`. -/
inductive Run (L : Externals) (allowed : List AbiRow → AbiRow → Prop) :
    List AbiRow → Service C → Prop
  | init {abis order : List AbiRow} {s : Service C} (nonempty : abis ≠ [])
      (ids : (abis.map AbiRow.id).Nodup) (sorted : IsRelevanceOrder abis order)
      (started : init L (getLastInsertedId abis) (order.map AbiRow.abiJson) = .ok s) :
      Run L allowed abis s
  | insert {abis : List AbiRow} {s : Service C} (r : AbiRow) (run : Run L allowed abis s)
      (fresh : ∀ r' ∈ abis, r'.id < r.id) (ok : allowed abis r) : Run L allowed (abis ++ [r]) s
  | load {abis order : List AbiRow} {s t : Service C} (run : Run L allowed abis s)
      (sorted : IsRelevanceOrder abis order)
      (done : Completes L (AbiQueries.ofTable abis order) s t) : Run L allowed abis t

/-- The new row ranks no higher than some row that already defines the selector. -/
def NotOutranking (L : Externals) (abis : List AbiRow) (r : AbiRow) : Prop :=
  ∀ k ∈ selectors L r.abiJson, (∃ r' ∈ abis, k ∈ selectors L r'.abiJson) →
    ∃ r' ∈ abis, k ∈ selectors L r'.abiJson ∧ r.relevance ≤ r'.relevance

/-- The service has loaded the whole table. -/
def UpToDate (abis : List AbiRow) (s : Service C) : Prop :=
  s.lastAbiId = getLastInsertedId abis

/-- What every step preserves. Rows up to the cursor are loaded, and a row after
it is matched in relevance by an earlier one. -/
structure Inv (L : Externals) (abis : List AbiRow) (s : Service C) (n : ℕ) : Prop where
  cursor : s.lastAbiId = some n
  ids : (abis.map AbiRow.id).Nodup
  cursorRow : ∃ r ∈ abis, r.id = n
  top : MostRelevant L abis s.fnSelectorsWithAbis
  loaded : ∀ r ∈ abis, r.id ≤ n → ∀ k ∈ selectors L r.abiJson, k ∈ s.fnSelectorsWithAbis
  pending : ∀ r ∈ abis, n < r.id → ∀ k ∈ selectors L r.abiJson,
    (∃ r' ∈ abis, r'.id < r.id ∧ k ∈ selectors L r'.abiJson) →
      ∃ r' ∈ abis, r'.id < r.id ∧ k ∈ selectors L r'.abiJson ∧ r.relevance ≤ r'.relevance

theorem inv_init (hne : abis ≠ []) (hids : (abis.map AbiRow.id).Nodup)
    (ho : IsRelevanceOrder abis order)
    (hs : init L (getLastInsertedId abis) (order.map AbiRow.abiJson) = .ok s) :
    ∃ n, Inv L abis s n := by
  obtain ⟨r₀,hr₀⟩ := List.exists_mem_of_ne_nil abis hne
  obtain ⟨n,hn,_⟩ := exists_getLastInsertedId hr₀
  have hcursor : s.lastAbiId = some n := by
    obtain ⟨_,_,rfl⟩ := init_eq_ok_iff.mp hs
    exact hn
  refine ⟨n,hcursor,hids,exists_of_getLastInsertedId hn,init_mostRelevant ho hs,?_,?_⟩
  · intro r hr _ k hk
    obtain ⟨v,hv⟩ := exists_last_of_isSome (ho.1.mem_iff.mpr hr)
      (definition_isSome.mpr hk : (definition L k r).isSome)
    rw [← AList.lookup_isSome, init_lookup hs, hv]
    rfl
  · intro r hr hlt
    exact absurd (le_of_getLastInsertedId hn hr) (not_le.mpr hlt)

theorem inv_insert {n : ℕ} (h : Inv L abis s n) {r : AbiRow} (hfresh : ∀ r' ∈ abis, r'.id < r.id)
    (hr : NotOutranking L abis r) : Inv L (abis ++ [r]) s n := by
  obtain ⟨r₀,hr₀,hid₀⟩ := h.cursorRow
  have hafter : n < r.id := hid₀ ▸ hfresh r₀ hr₀
  refine ⟨h.cursor,?_,⟨r₀,List.mem_append_left _ hr₀,hid₀⟩,?_,?_,?_⟩
  · rw [List.map_append, List.nodup_append]
    refine ⟨h.ids,List.nodup_singleton _,?_⟩
    intro a ha b hb
    obtain ⟨r',hr',rfl⟩ := List.mem_map.mp ha
    rw [List.map_singleton, List.mem_singleton] at hb
    rw [hb]
    exact (hfresh r' hr').ne
  · intro k v hv
    have htop := h.top k v hv
    apply htop.append
    intro hsome
    obtain ⟨p,hp,hpv,_⟩ := htop
    have hdef : k ∈ selectors L p.abiJson := definition_isSome.mp (Option.isSome_of_eq_some hpv)
    obtain ⟨q,hq,hk,hle⟩ := hr k (definition_isSome.mp hsome) ⟨p,hp,hdef⟩
    exact ⟨q,hq,definition_isSome.mpr hk,hle⟩
  · intro r' hr' hle
    rcases List.mem_append.mp hr' with hold | hnew
    · exact h.loaded r' hold hle
    · rw [List.mem_singleton.mp hnew] at hle
      omega
  · intro r' hr' hlt k hk ⟨p,hp,hid,hkp⟩
    rcases List.mem_append.mp hr' with hold | hnew
    · have hin : p ∈ abis := by
        rcases List.mem_append.mp hp with hin | hin
        · exact hin
        · rw [List.mem_singleton.mp hin] at hid
          exact absurd (hfresh r' hold) (not_lt.mpr hid.le)
      obtain ⟨q,hq,hqid,hqk,hle⟩ := h.pending r' hold hlt k hk ⟨p,hin,hid,hkp⟩
      exact ⟨q,List.mem_append_left _ hq,hqid,hqk,hle⟩
    · rw [List.mem_singleton.mp hnew] at hid hk ⊢
      have hin : p ∈ abis := by
        rcases List.mem_append.mp hp with hin | hin
        · exact hin
        · rw [List.mem_singleton.mp hin] at hid
          exact absurd hid (lt_irrefl _)
      obtain ⟨q,hq,hqk,hle⟩ := hr k hk ⟨p,hin,hkp⟩
      exact ⟨q,List.mem_append_left _ hq,hfresh q hq,hqk,hle⟩

/-- Among the rows after the cursor that define an unknown selector, the oldest
one is of greatest relevance. -/
theorem top_of_first_pending {n : ℕ} (h : Inv L abis s n) {k : Bytes} {v : Json}
    (hnew : k ∉ s.fnSelectorsWithAbis)
    (hv : (getAbisWithIdGreaterThan abis n).findSome? (definition L k) = some v) :
    Top AbiRow.relevance (definition L k) abis v := by
  obtain ⟨r₁,hr₁,hv₁,hleast⟩ := least_of_first (getAbisWithIdGreaterThan_sorted abis n) hv
  have hr₁' := mem_getAbisWithIdGreaterThan.mp hr₁
  refine ⟨r₁,hr₁'.1,hv₁,?_⟩
  have hmin : ∀ r' ∈ abis, (definition L k r').isSome → r₁.id ≤ r'.id := by
    intro r' hr' hsome
    refine hleast r' (mem_getAbisWithIdGreaterThan.mpr ⟨hr',?_⟩) hsome
    by_contra hle
    exact hnew (h.loaded r' hr' (not_lt.mp hle) k (definition_isSome.mp hsome))
  have hall : ∀ m, ∀ r' ∈ abis, r'.id = m → (definition L k r').isSome →
      r'.relevance ≤ r₁.relevance := by
    intro m
    induction m using Nat.strong_induction_on with
    | _ m ih =>
      intro r' hr' hid hsome
      by_cases hsmall : ∃ q ∈ abis, q.id < r'.id ∧ k ∈ selectors L q.abiJson
      · have hlt : n < r'.id := lt_of_lt_of_le hr₁'.2 (hmin r' hr' hsome)
        obtain ⟨q,hq,hqid,hqk,hle⟩ := h.pending r' hr' hlt k (definition_isSome.mp hsome) hsmall
        exact hle.trans (ih q.id (hid ▸ hqid) q hq rfl (definition_isSome.mpr hqk))
      · have hle : ¬ r₁.id < r'.id := fun hlt =>
          hsmall ⟨r₁,hr₁'.1,hlt,definition_isSome.mp (Option.isSome_of_eq_some hv₁)⟩
        have hsame : r' = r₁ := List.inj_on_of_nodup_map h.ids hr' hr₁'.1
          (le_antisymm (not_lt.mp hle) (hmin r' hr' hsome))
        rw [hsame]
  exact fun r' hr' hsome => hall r'.id r' hr' rfl hsome

theorem pendingAbis_some (abis order : List AbiRow) {n m : ℕ}
    (hm : getLastInsertedId abis = some m) :
    pendingAbis (AbiQueries.ofTable abis order) (some n) =
      (getAbisWithIdGreaterThan abis n).map AbiRow.abiJson := by
  by_cases hlt : n < m
  · exact pendingAbis_of_lt hm hlt
  · have hempty : getAbisWithIdGreaterThan abis n = [] := by
      rw [List.eq_nil_iff_forall_not_mem]
      intro r hr
      have hmem := mem_getAbisWithIdGreaterThan.mp hr
      have hle := le_of_getLastInsertedId hm hmem.1
      omega
    simp [pendingAbis, AbiQueries.ofTable, hm, hlt, hempty]

theorem inv_load {n : ℕ} (h : Inv L abis s n)
    (ht : Completes L (AbiQueries.ofTable abis order) s t) : ∃ m, Inv L abis t m := by
  obtain ⟨r₀,hr₀,_⟩ := h.cursorRow
  obtain ⟨m,hm,_⟩ := exists_getLastInsertedId hr₀
  have hpend : pendingAbis (AbiQueries.ofTable abis order) s.lastAbiId =
      (getAbisWithIdGreaterThan abis n).map AbiRow.abiJson := by
    rw [h.cursor]
    exact pendingAbis_some abis order hm
  refine ⟨m,ht.lastAbiId.trans hm,h.ids,exists_of_getLastInsertedId hm,?_,?_,?_⟩
  · intro k v hv
    rw [ht.lookup, hpend, List.findSome?_map] at hv
    cases hs : s.fnSelectorsWithAbis.lookup k with
    | some w =>
      rw [hs, Option.some_or] at hv
      exact h.top k v (hs.trans hv)
    | none =>
      rw [hs, Option.none_or] at hv
      exact top_of_first_pending h (AList.lookup_eq_none.mp hs) hv
  · intro r hr _ k hk
    rw [ht.mem, hpend]
    by_cases hle : r.id ≤ n
    · exact Or.inl (h.loaded r hr hle k hk)
    · exact Or.inr ⟨r.abiJson,List.mem_map_of_mem
        (mem_getAbisWithIdGreaterThan.mpr ⟨hr,not_le.mp hle⟩),hk⟩
  · intro r hr hlt
    exact absurd (le_of_getLastInsertedId hm hr) (not_le.mpr hlt)

theorem run_inv (h : Run L (NotOutranking L) abis s) : ∃ n, Inv L abis s n := by
  induction h with
  | init hne hids ho hs => exact inv_init hne hids ho hs
  | insert r _ hfresh hr ih =>
    obtain ⟨n,hn⟩ := ih
    exact ⟨n,inv_insert hn hfresh hr⟩
  | load _ _ hdone ih =>
    obtain ⟨n,hn⟩ := ih
    exact inv_load hn hdone

/-- Services that are up to date over one history, in which no inserted row
outranks the rows before it, hold functions of greatest relevance, and so
equally relevant ones, for the same selectors: those that the table defines. -/
theorem run_mostRelevant {s' : Service C} (h : Run L (NotOutranking L) abis s)
    (h' : Run L (NotOutranking L) abis s') (hup : UpToDate abis s) (hup' : UpToDate abis s') :
    MostRelevant L abis s.fnSelectorsWithAbis ∧
      (∀ k, k ∈ s.fnSelectorsWithAbis ↔ ∃ r ∈ abis, k ∈ selectors L r.abiJson) ∧
      ∀ k, (k ∈ s.fnSelectorsWithAbis ↔ k ∈ s'.fnSelectorsWithAbis) ∧
        ∀ v v', s.fnSelectorsWithAbis.lookup k = some v →
          s'.fnSelectorsWithAbis.lookup k = some v' →
            ∃ r ∈ abis, ∃ r' ∈ abis, definition L k r = some v ∧ definition L k r' = some v' ∧
              r.relevance = r'.relevance := by
  have hdefined : ∀ {u : Service C}, Run L (NotOutranking L) abis u → UpToDate abis u →
      ∀ k, k ∈ u.fnSelectorsWithAbis ↔ ∃ r ∈ abis, k ∈ selectors L r.abiJson := by
    intro u hu hupu k
    obtain ⟨n,hn⟩ := run_inv hu
    constructor
    · intro hk
      obtain ⟨v,hv⟩ := Option.isSome_iff_exists.mp (AList.lookup_isSome.mpr hk)
      obtain ⟨r,hr,hrv,_⟩ := hn.top k v hv
      exact ⟨r,hr,definition_isSome.mp (Option.isSome_of_eq_some hrv)⟩
    · rintro ⟨r,hr,hk⟩
      exact hn.loaded r hr (le_of_getLastInsertedId (hupu.symm.trans hn.cursor) hr) k hk
  obtain ⟨n,hn⟩ := run_inv h
  obtain ⟨n',hn'⟩ := run_inv h'
  refine ⟨hn.top,hdefined h hup,fun k => ⟨?_,?_⟩⟩
  · rw [hdefined h hup k, hdefined h' hup' k]
  · intro v v' hv hv'
    exact (hn.top k v hv).rank_eq (hn'.top k v' hv')

section History
open Reference

/-- A service that starts with one definition of `approve`, a row of relevance
`m` that defines it again, and the reload after that. -/
theorem run_insert_erc20 (m : Int) (allowed : List AbiRow → AbiRow → Prop)
    (hallowed : allowed [erc721Row 0] (erc20Row m)) :
    ∃ t : Service Caches.leastRecentlyUsed, Run packages allowed [erc721Row 0, erc20Row m] t ∧
      UpToDate [erc721Row 0, erc20Row m] t ∧
      t.fnSelectorsWithAbis.lookup approveSelector = some approveErc721 := by
  have hall := loadable_rows 0 m
  have hstart : IsRelevanceOrder [erc721Row 0] [erc721Row 0] :=
    ⟨List.Perm.refl _,List.pairwise_singleton _ _⟩
  obtain ⟨s,hs⟩ := init_exists (C := Caches.leastRecentlyUsed)
    (fun r hr => hall r (List.mem_cons.mpr (Or.inl (List.mem_singleton.mp hr))))
    loadable_multiSendAbi hstart (some 1)
  have hk := init_lookup hs approveSelector
  have hlock : s.lockLoadNewAbis = false ∧ s.lastAbiId = some 1 := by
    obtain ⟨_,_,rfl⟩ := init_eq_ok_iff.mp hs
    exact ⟨rfl,rfl⟩
  have hrun : Run packages allowed [erc721Row 0] s :=
    Run.init (List.cons_ne_nil _ _) (List.nodup_singleton _) hstart hs
  have hfresh : ∀ r ∈ [erc721Row 0], r.id < (erc20Row m).id := by
    intro r hr
    rw [List.mem_singleton.mp hr]
    exact Nat.one_lt_two
  have hinsert := Run.insert (erc20Row m) hrun hfresh hallowed
  have hsort : ∃ order, IsRelevanceOrder [erc721Row 0, erc20Row m] order := by
    rcases le_total 0 m with hle | hle
    · exact ⟨_,rows_order hle⟩
    · exact ⟨[erc20Row m, erc721Row 0],List.Perm.swap _ _ _,List.pairwise_pair.mpr hle⟩
  obtain ⟨order,ho⟩ := hsort
  have hpend : pendingAbis (AbiQueries.ofTable [erc721Row 0, erc20Row m] order) s.lastAbiId =
      [(erc20Row m).abiJson] := by
    rw [hlock.2]
    rfl
  have hdone : Completes packages (AbiQueries.ofTable [erc721Row 0, erc20Row m] order) s _ :=
    completes_iff.mpr ⟨hlock.1,fun abi ha => by
      rw [hpend] at ha
      rw [List.mem_singleton.mp ha]
      exact hall _ (List.mem_cons_of_mem _ (List.mem_singleton_self _)),rfl⟩
  refine ⟨_,Run.load hinsert ho hdone,hdone.lastAbiId,?_⟩
  rw [hdone.lookup, hk]
  rfl

/-- A more relevant definition of `approve` is inserted and loaded, and the
service keeps the old one. -/
theorem not_mostRelevant_after_insert :
    ¬ ∀ (abis : List AbiRow) (s : Service Caches.leastRecentlyUsed),
      Run packages (fun _ _ => True) abis s → UpToDate abis s →
        MostRelevant packages abis s.fnSelectorsWithAbis := by
  intro h
  obtain ⟨t,hrun,hup,hk⟩ := run_insert_erc20 100 (fun _ _ => True) trivial
  obtain ⟨r,hr,hv,hmax⟩ := h _ t hrun hup approveSelector approveErc721 hk
  have hle := hmax (erc20Row 100) (by simp) rfl
  rcases List.mem_cons.mp hr with rfl | hr
  · exact absurd hle (by decide)
  · rw [List.mem_singleton.mp hr, definition_erc20] at hv
    exact approveErc721_ne (Option.some.inj hv).symm

/-- With a definition of the same relevance the function kept is a most relevant one. -/
theorem mostRelevant_after_insert : ∃ t : Service Caches.leastRecentlyUsed,
    Run packages (NotOutranking packages) [erc721Row 0, erc20Row 0] t ∧
      MostRelevant packages [erc721Row 0, erc20Row 0] t.fnSelectorsWithAbis := by
  obtain ⟨t,hrun,hup,_⟩ := run_insert_erc20 0 (NotOutranking packages)
    fun k _ ⟨r,hr,hk⟩ => ⟨r,hr,hk,by rw [List.mem_singleton.mp hr]; exact le_refl (0 : Int)⟩
  exact ⟨t,hrun,(run_mostRelevant hrun hrun hup hup).1⟩

end History
end SafeDecoder.Relevance
