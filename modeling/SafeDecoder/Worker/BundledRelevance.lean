import SafeDecoder.Worker.Processing
import SafeDecoder.Worker.StartUp

/-! # The relevance of the bundled ABIs

The bundled documents come in tiers, the most relevant first. A start-up inserts what is
missing, so a document gets the relevance of its highest tier unless it has a row already.
-/
namespace SafeDecoder.BundledRelevance
open Worker Machine Processing StartUp

variable {pg : Postgres} (inst : Installation)

section Bundle

def tiers : List (Int × List Json) :=
  [(100,inst.safeContractsAbis), (90,inst.ercAbis ++ inst.safeAbis), (50,inst.thirdPartiesAbis)]

/-- A start-up that nobody disturbs. -/
def Loads (w : World pg) (r : Except PyError Unit) (w' : World pg) : Prop :=
  ∃ tr y l, (processes inst pg).Alone (loadLocalAbisInDatabase inst) w active tr y w' l ∧
    y.outcome? = some r

/-- Every bundled document has the one row that it should have, the other rows are those of
before, and a second start-up changes nothing. -/
structure Settled (w w' : World pg) : Prop where
  documents : ∀ tier ∈ tiers inst, ∀ j ∈ tier.2, ∃ row, HoldsAlone w' j row ∧ tier.1 ≤ row.relevance
  others : ∀ row, (∀ j ∈ bundledAbis inst, pg.abiHash row.abiJson ≠ pg.abiHash j) →
    (row ∈ w'.db.abis ↔ row ∈ w.db.abis)
  again : ∀ r w'', Loads inst w' r w'' → r = .ok () ∧ w'' = w'

/-- What is there already for a bundled document is relevant enough. -/
def RelevantEnough (w : World pg) : Prop :=
  ∀ tier ∈ tiers inst, ∀ j ∈ tier.2, ∀ row ∈ w.db.abis,
    pg.abiHash row.abiJson = pg.abiHash j → tier.1 ≤ row.relevance

end Bundle

section Rows
variable {w : World pg} {source : AbiSourceRow} {relevance : Int} {docs : List Json}

/-- A document is stored unless it has a row. -/
def storeMissing (source : AbiSourceRow) (relevance : Int) (w : World pg) (j : Json) : World pg :=
  if h : pg.abiHash j ∈ w.db.abis.map fun r => pg.abiHash r.abiJson then w
  else w.addAbi j source.id relevance h

def storeTier (source : AbiSourceRow) (w : World pg) (tier : Int × List Json) : World pg :=
  tier.2.foldl (storeMissing source tier.1) w

/-- Rows are only added, and those that are added belong to the documents. -/
structure Adds (docs : List Json) (relevance : Int) (w w' : World pg) : Prop where
  kept : w.db.abis <+: w'.db.abis
  sources : w'.db.sources = w.db.sources
  added : ∀ row ∈ w'.db.abis, row ∈ w.db.abis ∨
    (relevance ≤ row.relevance ∧ ∃ j ∈ docs, pg.abiHash row.abiJson = pg.abiHash j)

namespace Adds
variable {w' w'' : World pg} {docs' : List Json} {relevance' : Int}

theorem refl (docs : List Json) (relevance : Int) (w : World pg) : Adds docs relevance w w :=
  ⟨List.prefix_rfl,rfl,fun _ h => .inl h⟩

theorem mono (h : Adds docs relevance w w') (hdocs : docs ⊆ docs') (hle : relevance' ≤ relevance) :
    Adds docs' relevance' w w' := by
  refine ⟨h.kept,h.sources,fun row hrow => ?_⟩
  rcases h.added row hrow with hold | ⟨hr,j,hj,hhash⟩
  · exact .inl hold
  · exact .inr ⟨hle.trans hr,j,hdocs hj,hhash⟩

theorem trans (h : Adds docs relevance w w') (h' : Adds docs relevance w' w'') :
    Adds docs relevance w w'' := by
  refine ⟨h.kept.trans h'.kept,h'.sources.trans h.sources,fun row hrow => ?_⟩
  rcases h'.added row hrow with hold | hnew
  · exact h.added row hold
  · exact .inr hnew

theorem present (h : Adds docs relevance w w') {j : Json} (hj : w.abiOf j ≠ none) :
    w'.abiOf j ≠ none := by
  intro hnone
  apply hj
  rw [abiOf_eq_none] at hnone ⊢
  intro hmem
  apply hnone
  obtain ⟨row,hrow,hhash⟩ := List.mem_map.mp hmem
  exact List.mem_map.mpr ⟨row,h.kept.subset hrow,hhash⟩

end Adds

theorem storeMissing_adds (j : Json) :
    Adds [j] relevance w (storeMissing source relevance w j) := by
  unfold storeMissing
  split
  · exact Adds.refl _ _ _
  · refine ⟨List.prefix_append _ _,rfl,fun row hrow => ?_⟩
    rcases List.mem_append.mp hrow with hold | hnew
    · exact .inl hold
    · rw [List.mem_singleton.mp hnew]
      exact .inr ⟨le_rfl,j,List.mem_singleton_self j,rfl⟩

theorem storeMissing_present (j : Json) : (storeMissing source relevance w j).abiOf j ≠ none := by
  unfold storeMissing
  split
  · rename_i hmem
    intro hnone
    exact (abiOf_eq_none w).mp hnone hmem
  · simp [abiOf_addAbi]

theorem storeMissing_of_present {j : Json} (h : w.abiOf j ≠ none) :
    storeMissing source relevance w j = w := by
  apply dif_pos
  by_contra hno
  exact h ((abiOf_eq_none w).mpr hno)

theorem storeTier_adds (relevance : Int) (docs : List Json) :
    Adds docs relevance w (storeTier source w (relevance,docs)) := by
  unfold storeTier
  induction docs generalizing w with
  | nil => exact Adds.refl _ _ _
  | cons j docs ih =>
    have hfirst : Adds [j] relevance w (storeMissing source relevance w j) := storeMissing_adds j
    have hone := hfirst.mono (List.cons_subset_cons j (List.nil_subset docs)) le_rfl
    exact hone.trans (ih.mono (List.subset_cons_self j docs) le_rfl)

theorem storeTier_present {j : Json} (hj : j ∈ docs) :
    (storeTier source w (relevance,docs)).abiOf j ≠ none := by
  unfold storeTier
  induction docs generalizing w with
  | nil => cases hj
  | cons d docs ih =>
    rcases List.mem_cons.mp hj with rfl | hj
    · exact (storeTier_adds relevance docs).present (storeMissing_present j)
    · exact ih hj

theorem storeTier_of_present (h : ∀ j ∈ docs, w.abiOf j ≠ none) :
    storeTier source w (relevance,docs) = w := by
  unfold storeTier
  induction docs with
  | nil => rfl
  | cons d docs ih =>
    rw [List.foldl_cons, storeMissing_of_present (h d List.mem_cons_self)]
    exact ih fun j hj => h j (List.mem_cons_of_mem d hj)

end Rows

section Tiers
variable {w : World pg} {source : AbiSourceRow} {ts : List (Int × List Json)}

theorem storeTiers_adds {least : Int} (hleast : ∀ tier ∈ ts, least ≤ tier.1) :
    Adds (ts.flatMap Prod.snd) least w (ts.foldl (storeTier source) w) := by
  induction ts generalizing w with
  | nil => exact Adds.refl _ _ _
  | cons tier ts ih =>
    have hfirst : Adds tier.2 tier.1 w (storeTier source w tier) := storeTier_adds tier.1 tier.2
    have hrest := ih (w := storeTier source w tier) fun t ht => hleast t (List.mem_cons_of_mem _ ht)
    exact (hfirst.mono (List.subset_append_left _ _) (hleast tier List.mem_cons_self)).trans
      (hrest.mono (List.subset_append_right _ _) le_rfl)

theorem storeTiers_kept : w.db.abis <+: (ts.foldl (storeTier source) w).db.abis := by
  induction ts generalizing w with
  | nil => exact List.prefix_rfl
  | cons tier ts ih => exact (storeTier_adds tier.1 tier.2).kept.trans ih

theorem storeTiers_present {tier : Int × List Json} (htier : tier ∈ ts) {j : Json} (hj : j ∈ tier.2) :
    (ts.foldl (storeTier source) w).abiOf j ≠ none := by
  induction ts generalizing w with
  | nil => cases htier
  | cons first ts ih =>
    rcases List.mem_cons.mp htier with rfl | htier
    · intro hnone
      have hstored : (storeTier source w tier).abiOf j ≠ none := storeTier_present hj
      rw [abiOf_eq_none] at hnone
      refine hstored ((abiOf_eq_none _).mpr fun hmem => hnone ?_)
      obtain ⟨row,hrow,hhash⟩ := List.mem_map.mp hmem
      exact List.mem_map.mpr
        ⟨row,(storeTiers_kept (w := storeTier source w tier)).subset hrow,hhash⟩
    · exact ih htier

/-- The row of a document was there before, or has the relevance of a tier that comes
no later than any tier with the document. -/
theorem storeTiers_row (hsorted : ts.Pairwise fun a b => b.1 ≤ a.1) {tier : Int × List Json}
    (htier : tier ∈ ts) {j : Json} (hj : j ∈ tier.2) {row : AbiRow}
    (hrow : row ∈ (ts.foldl (storeTier source) w).db.abis)
    (hhash : pg.abiHash row.abiJson = pg.abiHash j) :
    row ∈ w.db.abis ∨ tier.1 ≤ row.relevance := by
  induction ts generalizing w with
  | nil => cases htier
  | cons first ts ih =>
    obtain ⟨hfirst,hsorted⟩ := List.pairwise_cons.mp hsorted
    have hadds : Adds first.2 first.1 w (storeTier source w first) := storeTier_adds first.1 first.2
    rcases List.mem_cons.mp htier with rfl | htier
    · -- The document has a row once its own tier is through, and keeps that row.
      obtain ⟨stored,hstored⟩ : ∃ stored, (storeTier source w tier).abiOf j = some stored :=
        Option.ne_none_iff_exists'.mp (storeTier_present hj)
      obtain ⟨hmem,hsame⟩ := abiOf_hash _ hstored
      have hunique : row = stored := by
        refine List.inj_on_of_nodup_map (World.abiHashes _) hrow ?_ ?_
        · exact (storeTiers_kept (w := storeTier source w tier)).subset hmem
        · exact hhash.trans hsame.symm
      subst hunique
      exact (hadds.added row hmem).imp_right And.left
    · rcases ih hsorted htier hrow with hold | hnew
      · exact (hadds.added row hold).imp_right fun h => (hfirst tier htier).trans h.1
      · exact .inr hnew

theorem storeTiers_of_present (h : ∀ tier ∈ ts, ∀ j ∈ tier.2, w.abiOf j ≠ none) :
    ts.foldl (storeTier source) w = w := by
  induction ts with
  | nil => rfl
  | cons first ts ih =>
    have hfirst : storeTier source w first = w := storeTier_of_present (h first List.mem_cons_self)
    rw [List.foldl_cons, hfirst]
    exact ih fun tier ht => h tier (List.mem_cons_of_mem _ ht)

end Tiers

section Evaluation
variable {w : World pg} {source : AbiSourceRow} {relevance : Int} {docs : List Json}

theorem evaluate_storeAbis (haccepts : ∀ j ∈ docs, pg.acceptsJson j) :
    evaluate (storeAbisInDatabase relevance source docs) w active =
      (.ok (),storeTier source w (relevance,docs),active) := by
  unfold storeTier
  induction docs generalizing w with
  | nil => rfl
  | cons j docs ih =>
    have hj := haccepts j List.mem_cons_self
    have hrest := fun j' hj' => haccepts j' (List.mem_cons_of_mem j hj')
    have hselect : respond unasked w active (.selectAbi j) = (.ok (w.abiOf j),w,active) := by
      simp [respond, active, hj]
    cases hrow : w.abiOf j with
    | some row =>
      rw [List.foldl_cons, storeMissing_of_present (by simp [hrow]), ← ih hrest]
      rw [hrow] at hselect
      exact Proc.eval_call hselect
    | none =>
      have hfresh := (abiOf_eq_none w).mp hrow
      have hnew : storeMissing source relevance w j = w.addAbi j source.id relevance hfresh := dif_neg hfresh
      have hinsert : respond unasked w active (.insertAbi j source.id relevance) =
          (.ok ⟨w.nextAbiId,relevance,j,source.id⟩,w.addAbi j source.id relevance hfresh,active) := by
        simp only [respond, active, Bool.false_eq_true, if_false, hj, if_true]
        rw [dif_neg hfresh]
      rw [List.foldl_cons, hnew, ← ih hrest]
      rw [hrow] at hselect
      exact (Proc.eval_call hselect).trans (Proc.eval_call hinsert)

/-- The source of the bundled documents, with the world in which it is there. -/
def localSource (w : World pg) : AbiSourceRow × World pg :=
  match w.source "localstorage" "decoder-service" with
  | some source => (source,w)
  | none => (⟨w.nextSourceId,"localstorage","decoder-service"⟩,
      w.addSource "localstorage" "decoder-service")

/-- What a start-up leaves. -/
def loadedWorld (inst : Installation) (w : World pg) : World pg :=
  (tiers inst).foldl (storeTier (localSource w).1) (localSource w).2

theorem evaluate_load {inst : Installation} (haccepts : ∀ j ∈ bundledAbis inst, pg.acceptsJson j) :
    evaluate (loadLocalAbisInDatabase inst) w active = (.ok (),loadedWorld inst w,active) := by
  simp only [bundledAbis, List.mem_append] at haccepts
  have hstore : ∀ (source : AbiSourceRow) (u : World pg),
      evaluate ((storeAbisInDatabase 100 source inst.safeContractsAbis).bind fun _ =>
        (storeAbisInDatabase 90 source (inst.ercAbis ++ inst.safeAbis)).bind fun _ =>
          storeAbisInDatabase 50 source inst.thirdPartiesAbis) u active =
      (.ok (),(tiers inst).foldl (storeTier source) u,active) := by
    intro source u
    apply (Proc.eval_bind_ok (evaluate_storeAbis fun j hj => haccepts j (.inl hj))).trans
    refine (Proc.eval_bind_ok (evaluate_storeAbis fun j hj => ?_)).trans ?_
    · exact haccepts j (.inr (.inl (List.mem_append.mp hj)))
    · exact evaluate_storeAbis fun j hj => haccepts j (.inr (.inr hj))
  have hselect : respond unasked w active (.selectAbiSource "localstorage" "decoder-service") =
      (.ok (w.source "localstorage" "decoder-service"),w,active) := rfl
  unfold loadLocalAbisInDatabase loadedWorld localSource
  rw [Proc.bind_eq, StartUp.getOrCreate_bind, evaluate, Proc.eval_call hselect]
  cases w.source "localstorage" "decoder-service" with
  | some source => exact hstore source w
  | none =>
    have hinsert : respond unasked w active (.insertAbiSource "localstorage" "decoder-service") =
        (.ok ⟨w.nextSourceId,"localstorage","decoder-service"⟩,
          w.addSource "localstorage" "decoder-service",active) := rfl
    exact (Proc.eval_call hinsert).trans (hstore _ _)

theorem issues_storeAbis (relevance : Int) (source : AbiSourceRow) (docs : List Json) :
    Issues Internal (storeAbisInDatabase relevance source docs) := by
  induction docs with
  | nil => trivial
  | cons j docs ih =>
    apply (Issues.perform trivial).bind
    intro found
    cases found with
    | some row => exact ih
    | none => exact (Issues.perform trivial).bind fun _ => ih

theorem issues_load (inst : Installation) : Issues Internal (loadLocalAbisInDatabase inst) := by
  refine Issues.bind ?_ fun source => ?_
  · apply (Issues.perform trivial).bind
    intro found
    cases found with
    | some source => trivial
    | none => exact (Issues.perform trivial).bind fun _ => trivial
  · exact (issues_storeAbis _ _ _).bind fun _ =>
      (issues_storeAbis _ _ _).bind fun _ => issues_storeAbis _ _ _

/-- A start-up that nobody disturbs comes to one end. -/
theorem loads_iff {inst : Installation} (haccepts : ∀ j ∈ bundledAbis inst, pg.acceptsJson j)
    {r : Except PyError Unit} {w' : World pg} :
    Loads inst w r w' ↔ r = .ok () ∧ w' = loadedWorld inst w := by
  have hsettles : (processes inst pg).Settles Internal (respond unasked) := pool_settles _ _
  constructor
  · rintro ⟨tr,y,l,h,hr⟩
    cases (evaluate_load haccepts).symm.trans (h.eval hsettles (issues_load inst) hr)
    exact ⟨rfl,rfl⟩
  · rintro ⟨rfl,rfl⟩
    obtain ⟨tr,y,hy,hr⟩ := exists_alone hsettles.allows (issues_load inst) (evaluate_load haccepts)
    exact ⟨tr,y,active,hy,hr⟩

end Evaluation

section Main
variable {inst} {w w' : World pg}

theorem bundledAbis_eq : bundledAbis inst = (tiers inst).flatMap Prod.snd := by
  simp [bundledAbis, tiers]

theorem tiers_sorted : (tiers inst).Pairwise fun a b => b.1 ≤ a.1 := by
  simp [tiers]

theorem localSource_abis : (localSource w).2.db.abis = w.db.abis := by
  unfold localSource
  split <;> rfl

theorem loadedWorld_adds : Adds (bundledAbis inst) 50 (localSource w).2 (loadedWorld inst w) := by
  rw [bundledAbis_eq]
  exact storeTiers_adds (by simp [tiers])

theorem loadedWorld_present {tier : Int × List Json} (htier : tier ∈ tiers inst) {j : Json}
    (hj : j ∈ tier.2) : (loadedWorld inst w).abiOf j ≠ none := storeTiers_present htier hj

theorem loadedWorld_kept : w.db.abis <+: (loadedWorld inst w).db.abis := by
  have hadds : Adds (bundledAbis inst) 50 (localSource w).2 (loadedWorld inst w) := loadedWorld_adds
  rw [← localSource_abis]
  exact hadds.kept

theorem localSource_of_source {source : AbiSourceRow}
    (h : w.source "localstorage" "decoder-service" = some source) : localSource w = (source,w) := by
  unfold localSource
  rw [h]

theorem localSource_source : ∃ source,
    (localSource w).2.source "localstorage" "decoder-service" = some source := by
  cases hsource : w.source "localstorage" "decoder-service" with
  | some source =>
    rw [localSource_of_source hsource]
    exact ⟨source,hsource⟩
  | none =>
    have hnew : localSource w = (⟨w.nextSourceId,"localstorage","decoder-service"⟩,
        w.addSource "localstorage" "decoder-service") := by
      unfold localSource
      rw [hsource]
    refine ⟨⟨w.nextSourceId,"localstorage","decoder-service"⟩,?_⟩
    rw [World.source] at hsource ⊢
    simp only [hnew, World.addSource, List.find?_append, hsource, Option.none_or]
    rfl

/-- Once everything is there, a start-up changes nothing. -/
theorem loadedWorld_again : loadedWorld inst (loadedWorld inst w) = loadedWorld inst w := by
  obtain ⟨source,hsource⟩ := localSource_source (w := w)
  have hkept : (loadedWorld inst w).source "localstorage" "decoder-service" = some source := by
    rw [World.source, loadedWorld_adds.sources]
    exact hsource
  have hlocal := localSource_of_source hkept
  rw [loadedWorld, hlocal]
  exact storeTiers_of_present fun tier htier j hj => loadedWorld_present htier hj

/-- A start-up puts the bundled documents in order exactly if nothing that is there for one of
them is less relevant than a tier with it. -/
theorem settled_iff (haccepts : ∀ j ∈ bundledAbis inst, pg.acceptsJson j) {r : Except PyError Unit}
    (h : Loads inst w r w') : r = .ok () ∧ (Settled inst w w' ↔ RelevantEnough inst w) := by
  obtain ⟨rfl,rfl⟩ := (loads_iff haccepts).mp h
  refine ⟨rfl,fun hsettled tier htier j hj row hrow hhash => ?_,fun henough => ?_⟩
  · obtain ⟨stored,halone,hle⟩ := hsettled.documents tier htier j hj
    rwa [(halone row).mp ⟨loadedWorld_kept.subset hrow,hhash⟩]
  · refine ⟨fun tier htier j hj => ?_,fun row hno => ?_,fun r w'' hagain => ?_⟩
    · obtain ⟨row,hrow⟩ := Option.ne_none_iff_exists'.mp (loadedWorld_present (w := w) htier hj)
      obtain ⟨hmem,hhash⟩ := abiOf_hash _ hrow
      refine ⟨row,holdsAlone_of_abiOf hrow,?_⟩
      rcases storeTiers_row tiers_sorted htier hj hmem hhash with hold | hnew
      · rw [localSource_abis] at hold
        exact henough tier htier j hj row hold hhash
      · exact hnew
    · constructor
      · intro hrow
        rcases loadedWorld_adds.added row hrow with hold | ⟨_,j,hj,hhash⟩
        · rwa [localSource_abis] at hold
        · exact absurd hhash (hno j hj)
      · exact fun hrow => loadedWorld_kept.subset hrow
    · obtain ⟨hr,hw⟩ := (loads_iff haccepts).mp hagain
      exact ⟨hr,hw.trans loadedWorld_again⟩

end Main

section Examples
open Reference

theorem tiers_abis {tier : Int × List Json} (htier : tier ∈ tiers bundling) {j : Json}
    (hj : j ∈ tier.2) : j = transferAbi :=
  bundling_abis (bundledAbis_eq ▸ List.mem_flatMap.mpr ⟨tier,htier,hj⟩)

theorem accepts_bundled : ∀ j ∈ bundledAbis bundling, database.acceptsJson j := by
  intro j hj
  rw [bundling_abis hj]
  exact accepts_transferAbi

/-- No bundle has this document. -/
def approveAbi : Json :=
  .arr [.obj [("name",.str "approve"), ("type",.str "function"), ("inputs",.arr [])]]

theorem abiHash_approve_ne : database.abiHash approveAbi ≠ database.abiHash transferAbi := by
  decide +kernel

/-- A worker has stored a document of its own, and a web process the bundled one, as relevant as
the first tier is. -/
def loadedBefore : World database :=
  ((World.empty database).addAbi approveAbi 1 0 List.not_mem_nil).addAbi transferAbi 2 100 fun h =>
    abiHash_approve_ne (List.mem_singleton.mp h).symm

theorem loadedBefore_settled : Settled bundling loadedBefore (loadedWorld bundling loadedBefore) := by
  have hloads : Loads bundling loadedBefore (.ok ()) (loadedWorld bundling loadedBefore) :=
    (loads_iff accepts_bundled).mpr ⟨rfl,rfl⟩
  refine (settled_iff accepts_bundled hloads).2.mpr fun tier htier j hj row hrow hhash => ?_
  have hhigh : tier.1 ≤ 100 := by
    rcases htier with _ | ⟨_,_ | ⟨_,_ | ⟨_,⟨⟩⟩⟩⟩ <;> decide
  rcases List.mem_pair.mp hrow with rfl | rfl
  · rw [tiers_abis htier hj] at hhash
    exact absurd hhash abiHash_approve_ne
  · exact hhigh

/-- A worker has stored the bundled document before, without relevance. -/
def storedBefore : World database := (World.empty database).addAbi transferAbi 1 0 List.not_mem_nil

theorem storedBefore_notSettled :
    Loads bundling storedBefore (.ok ()) (loadedWorld bundling storedBefore) ∧
      (100,[transferAbi]) ∈ tiers bundling ∧
      (loadedWorld bundling storedBefore).db.abis = [⟨1,0,transferAbi,1⟩] ∧
      ¬Settled bundling storedBefore (loadedWorld bundling storedBefore) := by
  have hloads : Loads bundling storedBefore (.ok ()) (loadedWorld bundling storedBefore) :=
    (loads_iff accepts_bundled).mpr ⟨rfl,rfl⟩
  have hstored : (localSource storedBefore).2.abiOf transferAbi ≠ none := by
    simp [World.abiOf, localSource_abis, storedBefore, World.addAbi, World.empty]
  have hkept : loadedWorld bundling storedBefore = (localSource storedBefore).2 :=
    storeTiers_of_present fun tier htier j hj => by
      rw [tiers_abis htier hj]
      exact hstored
  have habis : (loadedWorld bundling storedBefore).db.abis = [⟨1,0,transferAbi,1⟩] := by
    rw [hkept, localSource_abis]
    rfl
  refine ⟨hloads,List.mem_cons_self,habis,fun hsettled => ?_⟩
  obtain ⟨row,halone,hle⟩ :=
    hsettled.documents (100,[transferAbi]) List.mem_cons_self _ List.mem_cons_self
  have hrow : ⟨1,0,transferAbi,1⟩ = row := (halone _).mp ⟨habis ▸ List.mem_cons_self,rfl⟩
  subst hrow
  exact absurd hle (by decide)

end Examples
end SafeDecoder.BundledRelevance
