import SafeDecoder.Library.Dictionary
import SafeDecoder.Worker.System

/-! # The contracts of the default deployments

`create_safe_contracts` hands its values to `get_or_create`, which uses them for
a new row and drops them when the row is there. `update_safe_contracts_info`
writes the same values to every row of a deployment.
-/
namespace SafeDecoder.SafeContracts
open Worker Machine

variable {pg : Postgres} (inst : Installation) (chainId : Int)

section Runs

/-- Tasks one after another, each with a session of its own. -/
abbrev tasks (pg : Postgres) :
    Machine Command Command.Answer PyError (World pg) DbSession Empty (Worker.Task Unit) Unit :=
  pool pg (fun _ _ _ _ => True) id

/-- A run that comes to its end, with its result. -/
def Completes {β : Type} (x : Worker.Task β) (w : World pg) (r : Except PyError β)
    (w' : World pg) : Prop :=
  ∃ tr y l, (tasks pg).Alone x w active tr y w' l ∧ y.outcome? = some r

/-- `create_safe_contracts` -/
abbrev create : Worker.Task ℕ := createSafeContracts inst chainId 0 inst.deployments

/-- `update_safe_contracts_info` -/
abbrev update : Worker.Task Unit := updateSafeContractsInfo inst inst.deployments

def address (d : Deployment) : Bytes := inst.addresses.toBytes d.contractAddress

def key (d : Deployment) : ContractKey := (address inst d,chainId)

def values (d : Deployment) : ContractValues where
  name := some d.contractName
  displayName := some d.displayName
  trustedForDelegateCall := inst.isTrusted d.contractName

/-- Postgres takes the row of the deployment. -/
def Acceptable (d : Deployment) : Prop := fitsBigInt chainId ∧ (values inst d).accepted

/-- The row has what `update_safe_contracts_info` writes for the deployment. -/
def Labelled (d : Deployment) (c : ContractRow) : Prop :=
  c.displayName = some d.displayName ∧ c.trustedForDelegateCall = inst.isTrusted d.contractName

/-- What is expected of a call that went from `w` to `w'`: an update would not change
the flag and the display name of a deployment, the other rows are as they were,
and another call creates nothing. -/
structure Established (w w' : World pg) : Prop where
  updated : ∃ u, Completes (update inst) w' (.ok ()) u ∧ ∀ d ∈ inst.deployments, ∃ c c',
    w'.contract (key inst chainId d) = some c ∧ u.contract (key inst chainId d) = some c' ∧
      c.displayName = c'.displayName ∧ c.trustedForDelegateCall = c'.trustedForDelegateCall
  others : ∀ k, k ∉ inst.deployments.map (key inst chainId) → w'.contract k = w.contract k
  again : ∀ r w'', Completes (create inst chainId) w' r w'' →
    r = .ok 0 ∧ ∀ k, w''.contract k = w'.contract k

end Runs

section Steps

/-- The deployment has a row. -/
def withDeployment (w : World pg) (d : Deployment) : World pg :=
  if h : w.Takes (w.newContract (address inst d) chainId (values inst d)) then w.addContract _ h
  else w

/-- The rows of the deployment are up to date. -/
def withInfo (w : World pg) (d : Deployment) : World pg :=
  w.updateContractInfo (address inst d) d.contractName d.displayName (inst.isTrusted d.contractName)

variable {inst chainId} {w : World pg} {d : Deployment}

theorem withDeployment_of_takes
    (h : w.Takes (w.newContract (address inst d) chainId (values inst d))) :
    withDeployment inst chainId w d = w.addContract _ h := dif_pos h

theorem withDeployment_of_row (h : w.contract (key inst chainId d) ≠ none) :
    withDeployment inst chainId w d = w := by
  refine dif_neg fun htakes => h ?_
  exact (contract_eq_none w).mpr htakes.1

theorem withDeployment_frame (w : World pg) (d : Deployment) (k : ContractKey)
    (hk : k ≠ key inst chainId d) : (withDeployment inst chainId w d).contract k = w.contract k := by
  unfold withDeployment
  split
  · exact (contract_addContract w _ k).trans (if_neg hk)
  · rfl

/-- A row that is there stays, and a new one has the values of the deployment. -/
theorem withDeployment_row (w : World pg) (d : Deployment) (hfits : fitsBigInt chainId) :
    ∃ c, (withDeployment inst chainId w d).contract (key inst chainId d) = some c ∧
      (w.contract (key inst chainId d) = some c ∨
        w.contract (key inst chainId d) = none ∧ Labelled inst d c) := by
  cases hrow : w.contract (key inst chainId d) with
  | some c =>
    rw [withDeployment_of_row (by simp [hrow])]
    exact ⟨c,hrow,.inl rfl⟩
  | none =>
    have htakes : w.Takes (w.newContract (address inst d) chainId (values inst d)) :=
      ⟨(contract_eq_none w).mp hrow,hfits⟩
    rw [withDeployment_of_takes htakes]
    exact ⟨_,(contract_addContract w htakes _).trans (if_pos rfl),.inr ⟨rfl,rfl,rfl⟩⟩

theorem withInfo_frame (w : World pg) (d : Deployment) (b : Bytes) (hb : b ≠ address inst d) :
    (withInfo inst w d).contract (b,chainId) = w.contract (b,chainId) :=
  (contract_updateContractInfo w _ _ _ _ _).trans (if_neg hb)

theorem withInfo_row {c : ContractRow} (h : w.contract (key inst chainId d) = some c) :
    ∃ c', (withInfo inst w d).contract (key inst chainId d) = some c' ∧ Labelled inst d c' := by
  have hrow := contract_updateContractInfo w (address inst d) d.contractName d.displayName
    (inst.isTrusted d.contractName) (key inst chainId d)
  rw [h, if_pos (by rfl)] at hrow
  exact ⟨_,hrow,rfl,rfl⟩

end Steps

section Folds
variable {inst chainId} {w : World pg} {ds : List Deployment}

theorem deployed (hfits : fitsBigInt chainId) (hdistinct : (ds.map (key inst chainId)).Nodup)
    {d : Deployment} (hd : d ∈ ds) :
    ∃ c, (ds.foldl (withDeployment inst chainId) w).contract (key inst chainId d) = some c ∧
      (w.contract (key inst chainId d) = some c ∨
        w.contract (key inst chainId d) = none ∧ Labelled inst d c) := by
  obtain ⟨t,ht,hfold⟩ := foldl_of_mem (fun k (u : World pg) => u.contract k)
    withDeployment_frame hdistinct hd w
  obtain ⟨c,hc,hwhy⟩ := withDeployment_row t d hfits
  rw [ht] at hwhy
  exact ⟨c,hfold.trans hc,hwhy⟩

/-- Once every deployment has a row, nothing is left to do. -/
theorem deployed_again (h : ∀ d ∈ ds, w.contract (key inst chainId d) ≠ none) :
    ds.foldl (withDeployment inst chainId) w = w := by
  induction ds with
  | nil => rfl
  | cons d ds ih =>
    rw [List.foldl_cons, withDeployment_of_row (h d List.mem_cons_self)]
    exact ih fun d' hd' => h d' (List.mem_cons_of_mem _ hd')

theorem informed (hdistinct : (ds.map (address inst)).Nodup) {d : Deployment} (hd : d ∈ ds)
    {c : ContractRow} (h : w.contract (key inst chainId d) = some c) :
    ∃ c', (ds.foldl (withInfo inst) w).contract (key inst chainId d) = some c' ∧
      Labelled inst d c' := by
  obtain ⟨t,ht,hfold⟩ := foldl_of_mem (fun b (u : World pg) => u.contract (b,chainId))
    withInfo_frame hdistinct hd w
  obtain ⟨c',hc',hlabelled⟩ := withInfo_row (ht.trans h)
  exact ⟨c',hfold.trans hc',hlabelled⟩

theorem key_distinct (hdistinct : (ds.map (address inst)).Nodup) :
    (ds.map (key inst chainId)).Nodup := by
  have hmap : ds.map (key inst chainId) = (ds.map (address inst)).map fun b => (b,chainId) := by
    rw [List.map_map]
    rfl
  rw [hmap]
  exact hdistinct.map fun a b h => congrArg Prod.fst h

end Folds

section Outcomes
variable {inst chainId}

/-- Nobody else is at work. -/
abbrev undisturbed : Discipline (World pg × Unit) := .alone fun _ => True

theorem regular : Regular (fun _ _ _ _ => True) (undisturbed : Discipline (World pg × Unit)) 0
    ((tasks pg).recorded (fun _ _ _ => ()) 0) :=
  recorded_regular id (fun _ _ _ _ _ => rfl) fun _ => trivial

/-- How a call ends that has created `count` rows and has `ds` before it. -/
inductive Created (inst : Installation) (chainId : Int) (ds : List Deployment) (count : ℕ)
    (w : World pg) : Except PyError ℕ → World pg → Prop
  | ok {n} (haccepted : ∀ d ∈ ds, Acceptable inst chainId d)
      (hrows : (ds.foldl (withDeployment inst chainId) w).db.contracts.length + count =
        w.db.contracts.length + n) :
      Created inst chainId ds count w (.ok n) (ds.foldl (withDeployment inst chainId) w)
  | error {d e w'} (hd : d ∈ ds) (hrefused : ¬Acceptable inst chainId d) :
      Created inst chainId ds count w (.error e) w'

theorem Created.cons {d : Deployment} {ds : List Deployment} {count count' : ℕ} {w w' : World pg}
    {r : Except PyError ℕ} (hd : Acceptable inst chainId d)
    (hrows : (withDeployment inst chainId w d).db.contracts.length + count =
      w.db.contracts.length + count')
    (h : Created inst chainId ds count' (withDeployment inst chainId w d) r w') :
    Created inst chainId (d :: ds) count w r w' := by
  cases h with
  | ok haccepted hrest =>
    refine .ok (fun d' hd' => ?_) ?_
    · rcases List.mem_cons.mp hd' with rfl | hd'
      · exact hd
      · exact haccepted d' hd'
    · rw [List.foldl_cons]
      omega
  | error hd' hrefused => exact .error (List.mem_cons_of_mem _ hd') hrefused

theorem create_meets (ds : List Deployment) (count : ℕ) (w : World pg) :
    Meets undisturbed 0 ((tasks pg).recorded (fun _ _ _ => ()) 0)
      (fun r s _ => Created inst chainId ds count w r s.1)
      (createSafeContracts inst chainId count ds) (w,()) active := by
  induction ds generalizing count w with
  | nil =>
    apply Meets.ret
    intro t ht _
    obtain rfl : (w,()) = t := ht
    exact .ok (fun _ h => absurd h List.not_mem_nil) (by simp)
  | cons d ds ih =>
    refine regular.getOrCreate (fun t u _ htu _ hrow => htu ▸ hrow)
      (fun t ht _ hfits haccepted htakes g' _ => ?_) (fun t c ht _ hfits haccepted hc => ?_)
      fun t _ _ hno => .error List.mem_cons_self hno
    · obtain rfl : (w,()) = t := ht
      have hnew := withDeployment_of_takes htakes
      have hrest := ih (count + 1) (withDeployment inst chainId w d)
      rw [hnew] at hrest
      refine ⟨⟨trivial,trivial⟩,hrest.mono fun r s _ _ h => ?_⟩
      refine Created.cons ⟨hfits,haccepted⟩ ?_ (hnew ▸ h)
      rw [hnew]
      simp only [World.addContract, List.length_append, List.length_singleton]
      omega
    · obtain rfl : (w,()) = t := ht
      have hrow : w.contract (key inst chainId d) ≠ none := by
        intro hnone
        cases hnone.symm.trans hc
      have hsame := withDeployment_of_row hrow
      apply (ih count w).mono
      intro r s _ _ h
      exact .cons ⟨hfits,haccepted⟩ (by rw [hsame]) (hsame.symm ▸ h)

theorem update_meets (ds : List Deployment) (w : World pg) :
    Meets undisturbed 0 ((tasks pg).recorded (fun _ _ _ => ()) 0)
      (fun r s _ => (∀ d ∈ ds, (values inst d).accepted) →
        r = .ok () ∧ s.1 = ds.foldl (withInfo inst) w)
      (updateSafeContractsInfo inst ds) (w,()) active := by
  induction ds generalizing w with
  | nil => exact Meets.ret fun t ht _ _ => ⟨rfl,congrArg Prod.fst ht.symm⟩
  | cons d ds ih =>
    refine regular.updateContractInfo (fun t n ht _ _ g' _ => ?_) fun t _ _ hno => ?_
    · obtain rfl : (w,()) = t := ht
      refine ⟨⟨trivial,trivial⟩,(ih (withInfo inst w d)).mono fun r s _ _ h haccepted => ?_⟩
      exact h fun d' hd' => haccepted d' (List.mem_cons_of_mem _ hd')
    · refine Meets.raise fun u _ _ haccepted => absurd ?_ hno
      simpa [ContractValues.accepted, values] using haccepted d List.mem_cons_self

theorem Completes.created {w w' : World pg} {r : Except PyError ℕ}
    (h : Completes (create inst chainId) w r w') :
    Created inst chainId inst.deployments 0 w r w' := by
  obtain ⟨tr,y,l,halone,hr⟩ := h
  exact halone.outcome (create_meets inst.deployments 0 w) (g := ()) trivial hr

theorem Completes.updated {w w' : World pg} {r : Except PyError Unit}
    (h : Completes (update inst) w r w')
    (haccepted : ∀ d ∈ inst.deployments, (values inst d).accepted) :
    r = .ok () ∧ w' = inst.deployments.foldl (withInfo inst) w := by
  obtain ⟨tr,y,l,halone,hr⟩ := h
  exact halone.outcome (update_meets inst.deployments w) (g := ()) trivial hr haccepted

/-- Every task that nobody disturbs comes to its end. -/
theorem completes_exists {β : Type} (x : Worker.Task β) (w : World pg) :
    ∃ r w', Completes x w r w' := by
  let player : (tasks pg).Player := poolPlayer id unasked fun _ _ _ => trivial
  obtain ⟨y,halone,hr⟩ := player.complete_alone x w active
  exact ⟨_,_,_,_,_,halone,hr⟩

end Outcomes

section Main
variable {inst chainId}

/-- A call that returns does what is expected of it when the rows that were there
before have the values of their deployments, and only then. -/
theorem established_iff (hdistinct : (inst.deployments.map (address inst)).Nodup) {w w' : World pg}
    {n : ℕ} (h : Completes (create inst chainId) w (.ok n) w') :
    Established inst chainId w w' ↔
      ∀ d ∈ inst.deployments, ∀ c, w.contract (key inst chainId d) = some c → Labelled inst d c := by
  cases h.created with
  | ok haccepted _ =>
  have hrow := fun d hd => deployed (w := w) (haccepted d hd).1 (key_distinct hdistinct) hd
  constructor
  · rintro ⟨⟨u,hu,hsame⟩,_,_⟩ d hd c hc
    obtain ⟨-,rfl⟩ := hu.updated fun d hd => (haccepted d hd).2
    obtain ⟨c₁,c₂,hc₁,hc₂,hname,htrusted⟩ := hsame d hd
    obtain ⟨c₁',hc₁',hwhy⟩ := hrow d hd
    obtain ⟨c₂',hc₂',hlabelled⟩ := informed hdistinct hd hc₁
    obtain rfl : c₂ = c₂' := Option.some.inj (hc₂.symm.trans hc₂')
    obtain rfl : c₁ = c₁' := Option.some.inj (hc₁.symm.trans hc₁')
    rcases hwhy with hold | ⟨hnone,_⟩
    · obtain rfl : c = c₁ := Option.some.inj (hc.symm.trans hold)
      exact ⟨hname.trans hlabelled.1,htrusted.trans hlabelled.2⟩
    · rw [hnone] at hc
      cases hc
  · intro hlabels
    refine ⟨?_,fun k hk => ?_,fun r w'' hagain => ?_⟩
    · obtain ⟨r,u,hu⟩ := completes_exists (update inst)
        (inst.deployments.foldl (withDeployment inst chainId) w)
      obtain ⟨rfl,rfl⟩ := hu.updated fun d hd => (haccepted d hd).2
      refine ⟨_,hu,fun d hd => ?_⟩
      obtain ⟨c,hc,hwhy⟩ := hrow d hd
      obtain ⟨c',hc',hname,htrusted⟩ := informed hdistinct hd hc
      have hlabelled : Labelled inst d c := by
        rcases hwhy with hold | ⟨_,hnew⟩
        · exact hlabels d hd c hold
        · exact hnew
      exact ⟨c,c',hc,hc',hlabelled.1.trans hname.symm,hlabelled.2.trans htrusted.symm⟩
    · exact foldl_frame (fun k (u : World pg) => u.contract k) withDeployment_frame hk w
    · have hrows : ∀ d ∈ inst.deployments, (inst.deployments.foldl (withDeployment inst chainId)
          w).contract (key inst chainId d) ≠ none := by
        intro d hd
        obtain ⟨c,hc,-⟩ := hrow d hd
        simp [hc]
      cases hagain.created with
      | ok _ hcount =>
        rw [deployed_again hrows] at hcount ⊢
        exact ⟨congrArg Except.ok (by omega),fun _ => rfl⟩
      | error hd hrefused => exact absurd (haccepted _ hd) hrefused

end Main

section Examples
open Reference

def player : (tasks database).Player :=
  poolPlayer id unasked fun _ _ _ => trivial

/-- The world after a task that nobody disturbs. -/
def after {β : Type} (x : Worker.Task β) (w : World database) : World database :=
  (player.complete x w active).2.2.1

theorem completes_after {β : Type} {x : Worker.Task β} {w : World database} {r : Except PyError β}
    (h : (player.complete x w active).2.1 = r) : Completes x w r (after x w) := by
  obtain ⟨y,halone,hr⟩ := player.complete_alone x w active
  exact ⟨_,y,_,halone,hr.trans (congrArg some h)⟩

/-- The explorers know nothing about the contract of a deployment. -/
def download : Worker.Task Unit := getContractMetadataTask installation ⟨to0xHexStr [7],1,false⟩

/-- Two deployments, one of them trusted. -/
def deploying : Installation :=
  { installation with deployments :=
      [⟨"1.4.1","SafeMigration",to0xHexStr [7]⟩, ⟨"1.3.0","GnosisSafe",to0xHexStr [8]⟩] }

/-- The row that a download has left for the first deployment, after the values were written. -/
def updated : World database := after (update deploying) (after download (World.empty database))

def migration : ContractRow :=
  ⟨1,[7],some "SafeMigration",some "SafeMigration 1.4.1",none,true,none,1,none,none,1⟩

theorem established_updated :
    updated.contract ([7],1) = some migration ∧
      Established deploying 1 updated (after (create deploying 1) updated) := by
  have hrow : updated.contract ([7],1) = some migration := rfl
  have hrun : Completes (create deploying 1) updated (.ok 1) _ := completes_after rfl
  have hdistinct : (deploying.deployments.map (address deploying)).Nodup := by decide +kernel
  refine ⟨hrow,(established_iff hdistinct hrun).mpr fun d hd c hc => ?_⟩
  rcases List.mem_pair.mp hd with rfl | rfl
  · cases hc
    exact ⟨rfl,rfl⟩
  · cases hc

/-- Both tasks of an event, the download first: the contract is never trusted. -/
theorem downloaded_first : ∃ w w' : World database, Completes download (World.empty database) (.ok ()) w ∧
    Completes (create installation 1) w (.ok 0) w' ∧ ¬Established installation 1 w w' := by
  have hfirst : Completes download (World.empty database) (.ok ()) _ := completes_after rfl
  have hthen : Completes (create installation 1) (after download (World.empty database)) (.ok 0) _ :=
    completes_after rfl
  refine ⟨_,_,hfirst,hthen,fun h => ?_⟩
  obtain ⟨u,hu,hsame⟩ := h.updated
  obtain ⟨-,rfl⟩ := hu.updated fun d hd => by
    rw [List.mem_singleton.mp hd]
    rfl
  obtain ⟨c,c',hc,hc',hname,-⟩ := hsame _ List.mem_cons_self
  cases hc
  cases hc'
  cases hname

end Examples
end SafeDecoder.SafeContracts
