import SafeDecoder.Worker.Programs

/-! # How the commands behave under a discipline

One rule for each kind of command and one for each function that is made of
several: whoever keeps a discipline need only look at the writes.
-/
namespace SafeDecoder.Worker
open Effects

/-- Commands that leave no trace: they read, or they are refused. -/
def Silent : (c : Command) → Except PyError c.Answer → Prop
  | .fetch _ _ _, _ => False
  | .selectContract _ _, _ => True
  | .selectContractsWithoutAbi _, _ => True
  | .selectProxyContracts, _ => True
  | .selectAbi _, _ => True
  | .selectAbiSource _ _, _ => True
  | .selectAbiSourceByName _, _ => True
  | .rollback, _ => True
  | .redisGet _, _ => True
  | .redisSetNx _ _, .ok acquired => acquired = false
  | _, .error _ => True
  | _, .ok _ => False

/-- What the commands of one task do to the world and to a history variable. -/
abbrev Semantics (pg : Postgres) (γ : Type) :=
  World pg × γ → DbSession → (c : Command) → Except PyError c.Answer → World pg × γ → DbSession → Prop

section Rules
variable {pg : Postgres} {γ β : Type} {explorers : Explorers} {D : Discipline (World pg × γ)}
  {i : ℕ} {exec : Semantics pg γ}
  {Q : Except PyError β → World pg × γ → DbSession → Prop} {s : World pg × γ}

/-- The commands act on the world as they do, a history variable takes no note of
the silent ones, and the discipline allows to do nothing. -/
structure Regular (explorers : Explorers) (D : Discipline (World pg × γ)) (i : ℕ)
    (exec : Semantics pg γ) : Prop where
  acts : ∀ {s l c r t l'}, exec s l c r t l' → Exec explorers s.1 l c r t.1 l'
  silent : ∀ {s l c r t l'}, exec s l c r t l' → Silent c r → t.2 = s.2
  idle : ∀ s, D.guar i s s

/-- The session a task starts with and has after a rollback. -/
def active : DbSession := ⟨false⟩

theorem Regular.read (hR : Regular explorers D i exec) {c : Command} {l l' : DbSession}
    {next : Except PyError c.Answer → Task β} (answer : World pg → Except PyError c.Answer)
    (hread : ∀ answers w, respond answers w l c = (answer w,w,l'))
    (hsilent : ∀ r, Silent c r)
    (h : ∀ t, D.rely i s t → D.inv t → Meets D i exec Q (next (answer t.1)) t l') :
    Meets D i exec Q (.call c next) s l := by
  apply Meets.call
  intro t ht hi r t' l'' he
  obtain ⟨answers,hr,_⟩ := hR.acts he
  have hg := hR.silent he (hsilent r)
  rw [hread, Prod.mk.injEq, Prod.mk.injEq] at hr
  obtain ⟨rfl,hw,rfl⟩ := hr
  obtain rfl : t = t' := Prod.ext hw hg.symm
  exact ⟨⟨hi,hR.idle t⟩,h t ht hi⟩

theorem Regular.rollback (hR : Regular explorers D i exec) {l : DbSession}
    {next : Except PyError Unit → Task β}
    (h : ∀ t, D.rely i s t → D.inv t → Meets D i exec Q (next (.ok ())) t active) :
    Meets D i exec Q (.call .rollback next) s l :=
  hR.read (fun _ => .ok ()) (fun _ _ => rfl) (fun _ => trivial) h

theorem Regular.selectContract (hR : Regular explorers D i exec) {address : Bytes} {chainId : Int}
    (hfits : fitsBigInt chainId) {next : Except PyError (Option ContractRow) → Task β}
    (h : ∀ t, D.rely i s t → D.inv t →
      Meets D i exec Q (next (.ok (t.1.contract (address,chainId)))) t active) :
    Meets D i exec Q (.call (.selectContract address chainId) next) s active :=
  hR.read (fun w => .ok (w.contract (address,chainId)))
    (fun _ _ => by simp [respond, active, hfits]) (fun _ => trivial) h

theorem Regular.selectContract_unfit (hR : Regular explorers D i exec) {address : Bytes}
    {chainId : Int} (hfits : ¬fitsBigInt chainId)
    {next : Except PyError (Option ContractRow) → Task β}
    (h : ∀ t, D.rely i s t → D.inv t → Meets D i exec Q (next (.error .dbApiError)) t active) :
    Meets D i exec Q (.call (.selectContract address chainId) next) s active :=
  hR.read (fun _ => .error .dbApiError) (fun _ _ => by simp [respond, active, hfits])
    (fun _ => trivial) h

theorem Regular.selectAbi (hR : Regular explorers D i exec) {abiJson : Json}
    (haccepts : pg.acceptsJson abiJson) {next : Except PyError (Option AbiRow) → Task β}
    (h : ∀ t, D.rely i s t → D.inv t → Meets D i exec Q (next (.ok (t.1.abiOf abiJson))) t active) :
    Meets D i exec Q (.call (.selectAbi abiJson) next) s active :=
  hR.read (fun w => .ok (w.abiOf abiJson)) (fun _ _ => by simp [respond, active, haccepts])
    (fun _ => trivial) h

theorem Regular.selectAbiSourceByName (hR : Regular explorers D i exec) {name : String}
    {next : Except PyError (Option AbiSourceRow) → Task β}
    (h : ∀ t, D.rely i s t → D.inv t →
      Meets D i exec Q (next (.ok (t.1.db.getAbiSource name))) t active) :
    Meets D i exec Q (.call (.selectAbiSourceByName name) next) s active :=
  hR.read (fun w => .ok (w.db.getAbiSource name)) (fun _ _ => rfl) (fun _ => trivial) h

theorem Regular.redisGet (hR : Regular explorers D i exec) {key : RedisKey} {l : DbSession}
    {next : Except PyError (Option ℕ) → Task β}
    (h : ∀ t, D.rely i s t → D.inv t → Meets D i exec Q (next (.ok (t.1.redis key))) t l) :
    Meets D i exec Q (.call (.redisGet key) next) s l :=
  hR.read (fun w => .ok (w.redis key)) (fun _ _ => rfl) (fun _ => trivial) h

/-- What a write has to keep, and what comes after it. -/
def Writes (D : Discipline (World pg × γ)) (i : ℕ)
    (exec : Semantics pg γ) (t : World pg × γ) (c : Command) (a : c.Answer)
    (w' : World pg) (after : World pg × γ → Prop) : Prop :=
  ∀ g', exec t active c (.ok a) (w',g') active →
    (D.inv (w',g') ∧ D.guar i t (w',g')) ∧ after (w',g')

/-- A command is carried out, or it is refused and leaves the world as it was. -/
theorem Regular.answered (hR : Regular explorers D i exec) {c : Command}
    {next : Except PyError c.Answer → Task β}
    (h : ∀ t, D.rely i s t → D.inv t → ∀ answers r w' l', respond answers t.1 active c = (r,w',l') →
      (∃ a, r = .ok a ∧ l' = active ∧
        Writes D i exec t c a w' fun t' => Meets D i exec Q (next (.ok a)) t' active) ∨
      ∃ e, r = .error e ∧ w' = t.1 ∧ Silent c (.error e) ∧
        Meets D i exec Q (next (.error e)) t l') :
    Meets D i exec Q (.call c next) s active := by
  apply Meets.call
  intro t ht hi r t' l' he
  obtain ⟨answers,hr,_⟩ := hR.acts he
  obtain ⟨w',g'⟩ := t'
  rcases h t ht hi answers r w' l' hr with ⟨a,rfl,rfl,hwrites⟩ | ⟨e,rfl,rfl,hsilent,hnext⟩
  · exact hwrites g' he
  · obtain rfl : g' = t.2 := hR.silent he hsilent
    exact ⟨⟨hi,hR.idle t⟩,hnext⟩

theorem Regular.insertContract (hR : Regular explorers D i exec) {address : Bytes} {chainId : Int}
    {values : ContractValues} {next : Except PyError ContractRow → Task β}
    (hnew : ∀ t, D.rely i s t → D.inv t → fitsBigInt chainId → values.accepted →
      ∀ h : t.1.Takes (t.1.newContract address chainId values),
      Writes D i exec t (.insertContract address chainId values)
        (t.1.newContract address chainId values) (t.1.addContract _ h) fun t' =>
          Meets D i exec Q (next (.ok (t.1.newContract address chainId values))) t' active)
    (hold : ∀ t, D.rely i s t → D.inv t → fitsBigInt chainId → values.accepted →
      t.1.contract (address,chainId) ≠ none →
      Meets D i exec Q (next (.error integrityError)) t ⟨true⟩)
    (hbad : ∀ t, D.rely i s t → D.inv t → ¬(fitsBigInt chainId ∧ values.accepted) →
      Meets D i exec Q (next (.error .dbApiError)) t ⟨true⟩) :
    Meets D i exec Q (.call (.insertContract address chainId values) next) s active := by
  apply hR.answered
  intro t ht hi answers r w' l' hr
  simp only [respond, active, Bool.false_eq_true, if_false, Bool.and_eq_true] at hr
  by_cases hok : fitsBigInt chainId ∧ values.accepted
  · rw [if_pos hok] at hr
    by_cases hkey : t.1.Takes (t.1.newContract address chainId values)
    · rw [dif_pos hkey] at hr
      cases hr
      exact .inl ⟨_,rfl,rfl,hnew t ht hi hok.1 hok.2 hkey⟩
    · rw [dif_neg hkey] at hr
      cases hr
      have hrow : t.1.contract (address,chainId) ≠ none := fun hnone =>
        hkey ⟨(contract_eq_none t.1).mp hnone,hok.1⟩
      exact .inr ⟨_,rfl,rfl,trivial,hold t ht hi hok.1 hok.2 hrow⟩
  · rw [if_neg hok] at hr
    cases hr
    exact .inr ⟨_,rfl,rfl,trivial,hbad t ht hi hok⟩

theorem Regular.insertAbi (hR : Regular explorers D i exec) {abiJson : Json} {sourceId : ℕ}
    {relevance : Int} {next : Except PyError AbiRow → Task β}
    (hnew : ∀ t, D.rely i s t → D.inv t → pg.acceptsJson abiJson →
      ∀ h : pg.abiHash abiJson ∉ t.1.db.abis.map fun r => pg.abiHash r.abiJson,
      Writes D i exec t (.insertAbi abiJson sourceId relevance)
        ⟨t.1.nextAbiId,relevance,abiJson,sourceId⟩ (t.1.addAbi abiJson sourceId relevance h)
        fun t' => Meets D i exec Q (next (.ok ⟨t.1.nextAbiId,relevance,abiJson,sourceId⟩)) t' active)
    (hold : ∀ t, D.rely i s t → D.inv t → pg.acceptsJson abiJson → t.1.abiOf abiJson ≠ none →
      Meets D i exec Q (next (.error integrityError)) t ⟨true⟩)
    (hbad : ∀ t, D.rely i s t → D.inv t → ¬pg.acceptsJson abiJson →
      Meets D i exec Q (next (.error .dbApiError)) t ⟨true⟩) :
    Meets D i exec Q (.call (.insertAbi abiJson sourceId relevance) next) s active := by
  apply hR.answered
  intro t ht hi answers r w' l' hr
  simp only [respond, active, Bool.false_eq_true, if_false] at hr
  by_cases hok : pg.acceptsJson abiJson
  · rw [if_pos hok] at hr
    by_cases hkey : pg.abiHash abiJson ∈ t.1.db.abis.map fun r => pg.abiHash r.abiJson
    · rw [dif_pos hkey] at hr
      cases hr
      have hrow : t.1.abiOf abiJson ≠ none := fun hnone => (abiOf_eq_none t.1).mp hnone hkey
      exact .inr ⟨_,rfl,rfl,trivial,hold t ht hi hok hrow⟩
    · rw [dif_neg hkey] at hr
      cases hr
      exact .inl ⟨_,rfl,rfl,hnew t ht hi hok hkey⟩
  · rw [if_neg hok] at hr
    cases hr
    exact .inr ⟨_,rfl,rfl,trivial,hbad t ht hi hok⟩

theorem Regular.updateContract (hR : Regular explorers D i exec) {key : ContractKey}
    {changes : ContractChanges} {next : Except PyError Unit → Task β}
    (hok : ∀ t, D.rely i s t → D.inv t → changes.accepted →
      Writes D i exec t (.updateContract key changes) () (t.1.updateContract key changes)
        fun t' => Meets D i exec Q (next (.ok ())) t' active)
    (hbad : ∀ t, D.rely i s t → D.inv t → ¬changes.accepted →
      Meets D i exec Q (next (.error .dbApiError)) t ⟨true⟩) :
    Meets D i exec Q (.call (.updateContract key changes) next) s active := by
  apply hR.answered
  intro t ht hi answers r w' l' hr
  simp only [respond, active, Bool.false_eq_true, if_false] at hr
  by_cases ha : changes.accepted
  · rw [if_pos ha] at hr
    cases hr
    exact .inl ⟨_,rfl,rfl,hok t ht hi ha⟩
  · rw [if_neg ha] at hr
    cases hr
    exact .inr ⟨_,rfl,rfl,trivial,hbad t ht hi ha⟩

theorem Regular.updateContractInfo (hR : Regular explorers D i exec) {address : Bytes}
    {name displayName : String} {trusted : Bool} {next : Except PyError ℕ → Task β}
    (hok : ∀ t n, D.rely i s t → D.inv t → acceptsText name ∧ acceptsText displayName →
      Writes D i exec t (.updateContractInfo address name displayName trusted) n
        (t.1.updateContractInfo address name displayName trusted)
        fun t' => Meets D i exec Q (next (.ok n)) t' active)
    (hbad : ∀ t, D.rely i s t → D.inv t → ¬(acceptsText name ∧ acceptsText displayName) →
      Meets D i exec Q (next (.error .dbApiError)) t active) :
    Meets D i exec Q (.call (.updateContractInfo address name displayName trusted) next) s active := by
  apply hR.answered
  intro t ht hi answers r w' l' hr
  simp only [respond, active, Bool.false_eq_true, if_false, Bool.and_eq_true] at hr
  by_cases ha : acceptsText name ∧ acceptsText displayName
  · rw [if_pos ha] at hr
    cases hr
    exact .inl ⟨_,rfl,rfl,hok t _ ht hi ha⟩
  · rw [if_neg ha] at hr
    cases hr
    exact .inr ⟨_,rfl,rfl,trivial,hbad t ht hi ha⟩

/-- A command that is always carried out in the same way. -/
theorem Regular.write (hR : Regular explorers D i exec) {c : Command} {a : c.Answer}
    (apply : World pg → World pg)
    (hwrite : ∀ answers w, respond answers w active c = (.ok a,apply w,active))
    {next : Except PyError c.Answer → Task β}
    (h : ∀ t, D.rely i s t → D.inv t →
      Writes D i exec t c a (apply t.1) fun t' => Meets D i exec Q (next (.ok a)) t' active) :
    Meets D i exec Q (.call c next) s active := by
  apply hR.answered
  intro t ht hi answers r w' l' hr
  rw [hwrite] at hr
  cases hr
  exact .inl ⟨a,rfl,rfl,h t ht hi⟩

theorem Regular.redisSet (hR : Regular explorers D i exec) {key : RedisKey} {value : ℕ}
    {next : Except PyError Unit → Task β}
    (h : ∀ t, D.rely i s t → D.inv t → Writes D i exec t (.redisSet key value) ()
      (t.1.setRedis key (some value)) fun t' => Meets D i exec Q (next (.ok ())) t' active) :
    Meets D i exec Q (.call (.redisSet key value) next) s active :=
  hR.write (fun w => w.setRedis key (some value)) (fun _ _ => rfl) h

theorem Regular.redisDelete (hR : Regular explorers D i exec) {key : RedisKey}
    {next : Except PyError Unit → Task β}
    (h : ∀ t, D.rely i s t → D.inv t → Writes D i exec t (.redisDelete key) ()
      (t.1.setRedis key none) fun t' => Meets D i exec Q (next (.ok ())) t' active) :
    Meets D i exec Q (.call (.redisDelete key) next) s active :=
  hR.write (fun w => w.setRedis key none) (fun _ _ => rfl) h

theorem Regular.send (hR : Regular explorers D i exec) {message : Message}
    {next : Except PyError Unit → Task β}
    (h : ∀ t, D.rely i s t → D.inv t → Writes D i exec t (.send message) () (t.1.send message)
      fun t' => Meets D i exec Q (next (.ok ())) t' active) :
    Meets D i exec Q (.call (.send message) next) s active :=
  hR.write (fun w => w.send message) (fun _ _ => rfl) h

/-- A request that no history variable takes note of. -/
theorem Regular.fetch (hR : Regular explorers D i exec) {client : ContractSource} {address : Bytes}
    {chainId : Int} (hquiet : ∀ {s l r t l'}, exec s l (.fetch client address chainId) r t l' → t.2 = s.2)
    {next : Except PyError (Option ContractMetadata) → Task β}
    (h : ∀ t r, D.rely i s t → D.inv t → explorers client address chainId r →
      Meets D i exec Q (next r) t active) :
    Meets D i exec Q (.call (.fetch client address chainId) next) s active := by
  apply Meets.call
  intro t ht hi r t' l' he
  obtain ⟨answers,hr,hanswers⟩ := hR.acts he
  have hg := hquiet he
  obtain ⟨w',g'⟩ := t'
  cases hr
  obtain rfl : g' = t.2 := hg
  exact ⟨⟨hi,hR.idle t⟩,h t _ ht hi (hanswers client address chainId rfl)⟩

section Pools
variable {τ α : Type}

/-- Without interruption, a command that asks no explorer has one answer. -/
theorem endsAs_command {M : Type}
    {m : Machine Command Command.Answer PyError (World pg) DbSession M τ α}
    (hexec : m.exec = Exec explorers) {w : World pg} {l : DbSession} {c : Command}
    (hc : ∀ client address chainId, c ≠ .fetch client address chainId)
    {next : Except PyError c.Answer → Task β} {y : Task β} {r : Except PyError β}
    (hy : y.outcome? = some r) :
    m.EndsAs (.call c next) w l y ↔
      m.EndsAs (next (respond unasked w l c).1) (respond unasked w l c).2.1
        (respond unasked w l c).2.2 y := by
  rw [Machine.endsAs_call hy]
  simp only [hexec, exec_iff hc]
  constructor
  · rintro ⟨a,w',l',hr,h⟩
    rwa [hr]
  · exact fun h => ⟨_,_,_,rfl,h⟩

/-- A command that asks no explorer has one answer, which a history variable may note. -/
theorem meets_command {M : Type}
    {m : Machine Command Command.Answer PyError (World pg) DbSession M τ α}
    (hexec : m.exec = Exec explorers)
    {upd : γ → World pg → Event Command Command.Answer PyError M → γ} {l : DbSession} {c : Command}
    (hc : ∀ client address chainId, c ≠ .fetch client address chainId)
    {next : Except PyError c.Answer → Task β}
    (h : ∀ t, D.rely i s t → D.inv t → ∀ r w' l', respond unasked t.1 l c = (r,w',l') →
      (D.inv (w',upd t.2 t.1 (.own i c r)) ∧ D.guar i t (w',upd t.2 t.1 (.own i c r))) ∧
        Meets D i (m.recorded upd i) Q (next r) (w',upd t.2 t.1 (.own i c r)) l') :
    Meets D i (m.recorded upd i) Q (.call c next) s l := by
  apply Meets.call
  intro t ht hi r t' l' he
  obtain ⟨hexec',hg⟩ := he
  rw [hexec] at hexec'
  obtain ⟨w',g'⟩ := t'
  obtain rfl : g' = _ := hg
  exact h t ht hi r w' l' ((exec_iff hc).mp hexec')

/-- Tasks that were sent together, each with a session of its own, and nothing else. -/
def pool (pg : Postgres) (explorers : Explorers) (program : τ → Task α) :
    Machine Command Command.Answer PyError (World pg) DbSession Empty τ α where
  exec := Exec explorers
  move := fun _ _ _ _ => False
  program := program
  session := active

abbrev WorkerEvent (M : Type) := Event Command Command.Answer PyError M

theorem recorded_regular {M : Type} {m : Machine Command Command.Answer PyError (World pg) DbSession M τ α}
    {upd : γ → World pg → WorkerEvent M → γ}
    (hacts : ∀ {w l c r w' l'}, m.exec w l c r w' l' → Exec explorers w l c r w' l')
    (hsilent : ∀ g w c r, Silent c r → upd g w (.own i c r) = g) (hidle : ∀ s, D.guar i s s) :
    Regular explorers D i (m.recorded upd i) where
  acts := fun he => hacts he.1
  silent := fun he hs => he.2.trans (hsilent _ _ _ _ hs)
  idle := hidle

/-- The explorers of a schedule answer the same all the time. -/
def poolPlayer {explorers : Explorers} (program : τ → Task α)
    (answers : ContractSource → Bytes → Int → Except PyError (Option ContractMetadata))
    (h : ∀ client address chainId, explorers client address chainId (answers client address chainId)) :
    (pool pg explorers program).Player where
  respond := respond answers
  move := fun _ _ => none
  respond_exec := exec_respond h
  move_move := fun h => nomatch h

end Pools

/-! ## Functions -/

/-- An insert whose conflict is handled, when the program goes on with its result. -/
theorem insert_bind (insert : Command) (handler : PyError → Task (insert.Answer × Bool))
    (f : insert.Answer × Bool → Task β) :
    (catchOnly isIntegrityError
        (do
          let row ← issue insert
          return (row,true))
        handler).bind f =
      .call insert fun
        | .ok row => f (row,true)
        | .error e => if isIntegrityError e then (handler e).bind f else .raise e := by
  refine congrArg (Proc.call _) (funext fun r => ?_)
  cases r with
  | ok row => rfl
  | error e =>
    change Proc.bind (Proc.handle (Proc.raise e) _) f = _
    by_cases he : isIntegrityError e
    · simp only [Proc.handle, he, if_true]
    · simp only [Proc.handle, he]
      rfl

/-- `get_or_create` when the program goes on with its result. -/
theorem getOrCreate_bind (address : Bytes) (chainId : Int) (values : ContractValues)
    (f : ContractRow × Bool → Task β) :
    (Contract.getOrCreate address chainId values).bind f =
      .call (.insertContract address chainId values) fun
        | .ok c => f (c,true)
        | .error e =>
          if isIntegrityError e then
            .call .rollback fun
              | .ok _ => .call (.selectContract address chainId) fun
                | .ok (some c) => f (c,false)
                | .ok none => .raise e
                | .error e' => .raise e'
              | .error e' => .raise e'
          else .raise e := by
  refine (insert_bind (.insertContract address chainId values) _ f).trans (congrArg (Proc.call _) (funext fun r => ?_))
  cases r with
  | ok row => rfl
  | error e =>
    refine if_congr Iff.rfl (congrArg (Proc.call _) (funext fun r => ?_)) rfl
    cases r with
    | error e' => rfl
    | ok _ =>
      refine congrArg (Proc.call _) (funext fun r => ?_)
      rcases r with e' | (_ | row) <;> rfl

theorem getOrCreateAbi_bind (abiJson : Json) (sourceId : ℕ) (relevance : Int)
    (f : AbiRow × Bool → Task β) :
    (Abi.getOrCreateAbi abiJson sourceId relevance).bind f =
      .call (.insertAbi abiJson sourceId relevance) fun
        | .ok r => f (r,true)
        | .error e =>
          if isIntegrityError e then
            .call .rollback fun
              | .ok _ => .call (.selectAbi abiJson) fun
                | .ok (some r) => f (r,false)
                | .ok none => .raise e
                | .error e' => .raise e'
              | .error e' => .raise e'
          else .raise e := by
  refine (insert_bind (.insertAbi abiJson sourceId relevance) _ f).trans (congrArg (Proc.call _) (funext fun r => ?_))
  cases r with
  | ok row => rfl
  | error e =>
    refine if_congr Iff.rfl (congrArg (Proc.call _) (funext fun r => ?_)) rfl
    cases r with
    | error e' => rfl
    | ok _ =>
      refine congrArg (Proc.call _) (funext fun r => ?_)
      rcases r with e' | (_ | row) <;> rfl

/-- The commands of `Contract.get_or_create` -/
def OnContracts : Command → Prop
  | .insertContract _ _ _ => True
  | .selectContract _ _ => True
  | .rollback => True
  | _ => False

theorem issues_getOrCreate (address : Bytes) (chainId : Int) (values : ContractValues) :
    Issues OnContracts (Contract.getOrCreate address chainId values) := by
  refine Issues.handle ((Issues.perform trivial).bind fun _ => trivial) fun e => ?_
  split
  · refine (Issues.perform trivial).bind fun _ => (Issues.perform trivial).bind fun found => ?_
    cases found <;> trivial
  · trivial

theorem issues_createSafeContracts (inst : Installation) (chainId : Int) (count : ℕ)
    (deployments : List Deployment) :
    Issues OnContracts (createSafeContracts inst chainId count deployments) := by
  induction deployments generalizing count with
  | nil => trivial
  | cons d rest ih => exact (issues_getOrCreate _ _ _).bind fun r => ih _

/-- The rule of `Contract.get_or_create`: it inserts a row that was not there, or
finds one, as long as rows stay. -/
theorem Regular.getOrCreate (hR : Regular explorers D i exec) {address : Bytes} {chainId : Int}
    {values : ContractValues} {f : ContractRow × Bool → Task β}
    (hstays : ∀ t u, D.inv t → D.rely i t u → D.inv u →
      t.1.contract (address,chainId) ≠ none → u.1.contract (address,chainId) ≠ none)
    (hnew : ∀ t, D.rely i s t → D.inv t → fitsBigInt chainId → values.accepted →
      ∀ h : t.1.Takes (t.1.newContract address chainId values),
      Writes D i exec t (.insertContract address chainId values)
        (t.1.newContract address chainId values) (t.1.addContract _ h) fun t' =>
          Meets D i exec Q (f (t.1.newContract address chainId values,true)) t' active)
    (hfound : ∀ t c, D.rely i s t → D.inv t → fitsBigInt chainId → values.accepted →
      t.1.contract (address,chainId) = some c →
      Meets D i exec Q (f (c,false)) t active)
    (hbad : ∀ t, D.rely i s t → D.inv t → ¬(fitsBigInt chainId ∧ values.accepted) →
      Q (.error .dbApiError) t ⟨true⟩) :
    Meets D i exec Q ((Contract.getOrCreate address chainId values).bind f) s active := by
  rw [getOrCreate_bind]
  refine hR.insertContract hnew (fun t ht hi hfits haccepted hrow => ?_) fun t ht hi hno => ?_
  · apply hR.rollback
    intro u hu hiu
    apply hR.selectContract hfits
    intro v hv hiv
    have htv := D.rely_trans i hu hv
    cases hc : v.1.contract (address,chainId) with
    | none => exact absurd hc (hstays t v hi htv hiv hrow)
    | some c => exact hfound v c (D.rely_trans i ht htv) hiv hfits haccepted hc
  · exact Meets.raise fun u hu hiu => hbad u (D.rely_trans i ht hu) hiu hno

theorem Regular.getOrCreateAbi (hR : Regular explorers D i exec) {abiJson : Json} {sourceId : ℕ}
    {relevance : Int} {f : AbiRow × Bool → Task β}
    (hstays : ∀ t u, D.inv t → D.rely i t u → D.inv u →
      t.1.abiOf abiJson ≠ none → u.1.abiOf abiJson ≠ none)
    (hnew : ∀ t, D.rely i s t → D.inv t → pg.acceptsJson abiJson →
      ∀ h : pg.abiHash abiJson ∉ t.1.db.abis.map fun r => pg.abiHash r.abiJson,
      Writes D i exec t (.insertAbi abiJson sourceId relevance)
        ⟨t.1.nextAbiId,relevance,abiJson,sourceId⟩ (t.1.addAbi abiJson sourceId relevance h)
        fun t' => Meets D i exec Q (f (⟨t.1.nextAbiId,relevance,abiJson,sourceId⟩,true)) t' active)
    (hfound : ∀ t r, D.rely i s t → D.inv t → pg.acceptsJson abiJson → t.1.abiOf abiJson = some r →
      Meets D i exec Q (f (r,false)) t active)
    (hbad : ∀ t, D.rely i s t → D.inv t → ¬pg.acceptsJson abiJson →
      Q (.error .dbApiError) t ⟨true⟩) :
    Meets D i exec Q ((Abi.getOrCreateAbi abiJson sourceId relevance).bind f) s active := by
  rw [getOrCreateAbi_bind]
  refine hR.insertAbi hnew (fun t ht hi haccepts hrow => ?_) fun t ht hi hno => ?_
  · apply hR.rollback
    intro u hu hiu
    apply hR.selectAbi haccepts
    intro v hv hiv
    have htv := D.rely_trans i hu hv
    cases hc : v.1.abiOf abiJson with
    | none => exact absurd hc (hstays t v hi htv hiv hrow)
    | some r => exact hfound v r (D.rely_trans i ht htv) hiv haccepts hc
  · exact Meets.raise fun u hu hiu => hbad u (D.rely_trans i ht hu) hiu hno

theorem askClients_bind (address : Bytes) (chainId : Int) (client : ContractSource)
    (rest : List ContractSource) (f : EnhancedContractMetadata → Task β) :
    (askClients address chainId (client :: rest)).bind f =
      .call (.fetch client address chainId) fun
        | .ok (some metadata) => f ⟨address,some metadata,some client,chainId⟩
        | .ok none => (askClients address chainId rest).bind f
        | .error e =>
          if isClientFailure e then (askClients address chainId rest).bind f else .raise e := by
  refine congrArg (Proc.call _) (funext fun r => ?_)
  rcases r with e | (_ | metadata)
  · change Proc.bind (Proc.bind (Proc.handle (Proc.raise e) _) _) f = _
    by_cases he : isClientFailure e
    · simp only [Proc.handle, he, if_true]
      rfl
    · simp only [Proc.handle, he]
      rfl
  · rfl
  · rfl

/-- The rule of `get_contract_metadata` -/
theorem Regular.askClients (hR : Regular explorers D i exec)
    (hquiet : ∀ {s l client address chainId r t l'},
      exec s l (.fetch client address chainId) r t l' → t.2 = s.2)
    {address : Bytes} {chainId : Int} {clients : List ContractSource}
    {f : EnhancedContractMetadata → Task β}
    (hfound : ∀ t metadata client, D.rely i s t → D.inv t →
      explorers client address chainId (.ok (some metadata)) →
      Meets D i exec Q (f ⟨address,some metadata,some client,chainId⟩) t active)
    (hnone : ∀ t, D.rely i s t → D.inv t → Meets D i exec Q (f ⟨address,none,none,chainId⟩) t active)
    (herror : ∀ t e client, D.rely i s t → D.inv t → explorers client address chainId (.error e) →
      isClientFailure e = false → Q (.error e) t active) :
    Meets D i exec Q ((askClients address chainId clients).bind f) s active := by
  induction clients generalizing s with
  | nil => exact Meets.later hnone
  | cons client rest ih =>
    rw [askClients_bind]
    apply hR.fetch hquiet
    intro t r ht hi hr
    have hrest : Meets D i exec Q ((Worker.askClients address chainId rest).bind f) t active :=
      ih (fun u md cl hu => hfound u md cl (D.rely_trans i ht hu))
        (fun u hu => hnone u (D.rely_trans i ht hu))
        fun u e cl hu => herror u e cl (D.rely_trans i ht hu)
    rcases r with e | (_ | metadata)
    · by_cases he : isClientFailure e
      · simpa only [he, if_true] using hrest
      · simp only [he]
        exact Meets.raise fun u hu hiu =>
          herror u e client (D.rely_trans i ht hu) hiu hr (Bool.eq_false_iff.mpr he)
    · exact hrest
    · exact hfound t metadata client ht hi hr

theorem shouldAttemptDownload_bind (inst : Installation) (address : String) (chainId : Int)
    (maxRetries : ℕ) (f : Bool → Task β) :
    (shouldAttemptDownload inst address chainId maxRetries).bind f =
      .call (.redisGet (.shouldAttemptDownload address chainId maxRetries)) fun
        | .ok (some cached) => f (cached ≠ 0)
        | .ok none => .call (.selectContract (inst.addresses.toBytes address) chainId) fun
          | .ok contract =>
            if refusedBy contract maxRetries then
              .call (.redisSet (.shouldAttemptDownload address chainId maxRetries) 0) fun
                | .ok _ => f false
                | .error e => .raise e
            else f true
          | .error e => .raise e
        | .error e => .raise e := by
  refine congrArg (Proc.call _) (funext fun r => ?_)
  rcases r with e | (_ | cached)
  · rfl
  · refine congrArg (Proc.call _) (funext fun r => ?_)
    cases r with
    | error e => rfl
    | ok contract =>
      change Proc.bind (if refusedBy contract maxRetries = true then _ else _) f = _
      by_cases hr : refusedBy contract maxRetries
      · simp only [hr, if_true]
        refine congrArg (Proc.call _) (funext fun r => ?_)
        cases r <;> rfl
      · simp only [hr]
        rfl
  · rfl

/-- Postgres takes the document and the name that are going to be stored. -/
def Storable (pg : Postgres) (metadata : ContractMetadata) : Prop :=
  pg.acceptsJson metadata.abi ∧ metadata.name.all acceptsText

/-- What the three writes of `process_contract_metadata` have to keep. `Pre` holds
when it starts, `Held c` while it holds the loaded row `c`. -/
structure ProcessKeeps (D : Discipline (World pg × γ)) (i : ℕ) (exec : Semantics pg γ)
    (m : EnhancedContractMetadata) (Pre : World pg × γ → Prop)
    (Held : ContractRow → World pg × γ → Prop)
    (Q : Except PyError Bool → World pg × γ → DbSession → Prop) : Prop where
  stays_contract : ∀ t u, D.inv t → D.rely i t u → D.inv u →
    t.1.contract (m.address,m.chainId) ≠ none → u.1.contract (m.address,m.chainId) ≠ none
  stays_abi : ∀ t u j r, D.inv t → D.rely i t u → D.inv u →
    t.1.abiOf j = some r → u.1.abiOf j = some r
  pre : ∀ t u, Pre t → D.rely i t u → D.inv u → Pre u
  held : ∀ c t u, Held c t → D.rely i t u → D.inv u → Held c u
  create : ∀ t h, D.inv t → Pre t → fitsBigInt m.chainId →
    Writes D i exec t (.insertContract m.address m.chainId {})
      (t.1.newContract m.address m.chainId {})
      (t.1.addContract (t.1.newContract m.address m.chainId {}) h)
      (Held (t.1.newContract m.address m.chainId {}))
  load : ∀ t c, D.inv t → Pre t → t.1.contract (m.address,m.chainId) = some c → Held c t
  fail : ∀ t c, D.inv t → Held c t → c.key = (m.address,m.chainId) →
    (∃ u, D.inv u ∧ acceptedAbi u.1.db m = none) →
    Writes D i exec t (.updateContract c.key { fetchRetries := some (c.fetchRetries + 1) }) ()
      (t.1.updateContract c.key { fetchRetries := some (c.fetchRetries + 1) })
      fun t' => ∀ u, D.rely i t' u → D.inv u → Q (.ok false) u active
  storeAbi : ∀ t c metadata source h, D.inv t → Held c t →
    (∃ u, D.inv u ∧ acceptedAbi u.1.db m = some (metadata,source)) →
    Writes D i exec t (.insertAbi metadata.abi source.id 0)
      ⟨t.1.nextAbiId,0,metadata.abi,source.id⟩ (t.1.addAbi metadata.abi source.id 0 h) (Held c)
  store : ∀ t c metadata source abi changes, D.inv t → Held c t → c.key = (m.address,m.chainId) →
    (∃ u, D.inv u ∧ acceptedAbi u.1.db m = some (metadata,source)) →
    t.1.abiOf metadata.abi = some abi →
    changes = metadataChanges abi.id metadata ∨ changes = (metadataChanges abi.id metadata).since c →
    Writes D i exec t (.updateContract c.key changes) () (t.1.updateContract c.key changes)
      fun t' => ∀ u, D.rely i t' u → D.inv u → Q (.ok true) u active
  error : ∀ t l, D.inv t → (¬fitsBigInt m.chainId ∨ ∃ u metadata source, D.inv u ∧
    acceptedAbi u.1.db m = some (metadata,source) ∧ ¬Storable pg metadata) →
    Q (.error .dbApiError) t l

theorem since_failed (c : ContractRow) :
    ContractChanges.since c { fetchRetries := some (c.fetchRetries + 1) } =
      { fetchRetries := some (c.fetchRetries + 1) } := by
  simp [ContractChanges.since]

theorem since_accepted {c : ContractRow} {changes : ContractChanges} (h : changes.accepted) :
    (changes.since c).accepted := by
  simp only [ContractChanges.accepted, ContractChanges.since] at h ⊢
  cases hn : changes.name with
  | none => simp
  | some name =>
    rw [hn] at h
    by_cases hc : name = c.name
    · simp [hc]
    · simpa [hc] using h

section Process
variable {m : EnhancedContractMetadata} {Pre : World pg × γ → Prop}
  {Held : ContractRow → World pg × γ → Prop}
  {Q : Except PyError Bool → World pg × γ → DbSession → Prop}

theorem ProcessKeeps.recordFailedAttempt (hR : Regular explorers D i exec)
    (h : ProcessKeeps D i exec m Pre Held Q) {c : ContractRow} {t : World pg × γ}
    (hheld : Held c t) (hkey : c.key = (m.address,m.chainId))
    (hwhy : ∃ u, D.inv u ∧ acceptedAbi u.1.db m = none) :
    Meets D i exec Q (recordFailedAttempt c) t active := by
  rw [Worker.recordFailedAttempt, since_failed]
  refine hR.updateContract (fun u hu hi _ g' he => ?_) fun u hu hi hno => ?_
  · obtain ⟨hkept,hQ⟩ := h.fail u c hi (h.held c t u hheld hu hi) hkey hwhy g' he
    exact ⟨hkept,Meets.ret hQ⟩
  · exact absurd (by rfl) hno

theorem ProcessKeeps.recordAbi (hR : Regular explorers D i exec)
    (h : ProcessKeeps D i exec m Pre Held Q) {c : ContractRow} {t : World pg × γ}
    (hheld : Held c t) (hkey : c.key = (m.address,m.chainId)) {metadata : ContractMetadata}
    {source : AbiSourceRow} (hwhy : ∃ u, D.inv u ∧ acceptedAbi u.1.db m = some (metadata,source))
    {abi : AbiRow} (hit : D.inv t) (habi : t.1.abiOf metadata.abi = some abi) (created : Bool) :
    Meets D i exec Q (recordAbi c abi created metadata) t active := by
  refine hR.updateContract (fun u hu hi _ g' he => ?_) fun u hu hi hno => ?_
  · have hchanges : (if created then (metadataChanges abi.id metadata).since c
          else metadataChanges abi.id metadata) = metadataChanges abi.id metadata ∨
        (if created then (metadataChanges abi.id metadata).since c
          else metadataChanges abi.id metadata) = (metadataChanges abi.id metadata).since c := by
      cases created
      · exact .inl rfl
      · exact .inr rfl
    obtain ⟨hkept,hQ⟩ := h.store u c metadata source abi _ hi (h.held c t u hheld hu hi) hkey hwhy
      (h.stays_abi t u _ _ hit hu hi habi) hchanges g' he
    exact ⟨hkept,Meets.ret hQ⟩
  · refine Meets.raise fun v hv hiv => h.error v _ hiv (.inr ?_)
    obtain ⟨w,hw,ha⟩ := hwhy
    refine ⟨w,metadata,source,hw,ha,fun hs => hno ?_⟩
    have haccepted : (metadataChanges abi.id metadata).accepted := hs.2
    cases created
    · exact haccepted
    · exact since_accepted haccepted

theorem ProcessKeeps.processLoaded (hR : Regular explorers D i exec)
    (h : ProcessKeeps D i exec m Pre Held Q) {c : ContractRow} {t : World pg × γ}
    (hheld : Held c t) (hkey : c.key = (m.address,m.chainId)) (hit : D.inv t) :
    Meets D i exec Q (processLoaded m c) t active := by
  unfold Worker.processLoaded
  cases hm : m.metadata with
  | none => exact h.recordFailedAttempt hR hheld hkey ⟨t,hit,by simp [acceptedAbi, hm]⟩
  | some metadata =>
    cases hs : m.source with
    | none => exact h.recordFailedAttempt hR hheld hkey ⟨t,hit,by simp [acceptedAbi, hm, hs]⟩
    | some source =>
      apply hR.selectAbiSourceByName
      intro u hu hi
      have hheldu := h.held c t u hheld hu hi
      change Meets D i exec Q (Proc.bind (Proc.ret _) _) u active
      rw [Proc.ret_bind]
      cases hrow : u.1.db.getAbiSource source.value with
      | none =>
        exact h.recordFailedAttempt hR hheldu hkey ⟨u,hi,by simp [acceptedAbi, hm, hs, hrow]⟩
      | some row =>
        by_cases ht : metadata.abi.truthy
        · have hwhy : ∃ u, D.inv u ∧ acceptedAbi u.1.db m = some (metadata,row) :=
            ⟨u,hi,by simp [acceptedAbi, hm, hs, hrow, ht]⟩
          simp only [ht, if_true]
          refine hR.getOrCreateAbi (fun a b ha hab hb hne => ?_)
            (fun v hv hiv _ hfresh g' he => ?_) (fun v r hv hiv _ hr => ?_) fun v hv hiv hno => ?_
          · obtain ⟨r,hr⟩ := Option.ne_none_iff_exists'.mp hne
            rw [h.stays_abi a b _ r ha hab hb hr]
            simp
          · obtain ⟨hkept,hheld'⟩ := h.storeAbi v c metadata row hfresh hiv
              (h.held c u v hheldu hv hiv) hwhy g' he
            refine ⟨hkept,h.recordAbi hR hheld' hkey hwhy hkept.1 ?_ true⟩
            simp [abiOf_addAbi]
          · exact h.recordAbi hR (h.held c u v hheldu hv hiv) hkey hwhy hiv hr false
          · refine h.error v _ hiv (.inr ?_)
            obtain ⟨w,hw,ha⟩ := hwhy
            exact ⟨w,metadata,row,hw,ha,fun hstorable => hno hstorable.1⟩
        · simp only [ht]
          exact h.recordFailedAttempt hR hheldu hkey
            ⟨u,hi,by simp [acceptedAbi, hm, hs, hrow, ht]⟩

/-- The rule of `process_contract_metadata` -/
theorem ProcessKeeps.meets (hR : Regular explorers D i exec)
    (h : ProcessKeeps D i exec m Pre Held Q) (hpre : Pre s) :
    Meets D i exec Q (processContractMetadata m) s active := by
  refine hR.getOrCreate h.stays_contract (fun t ht hi hfits _ hkey g' he => ?_)
    (fun t c ht hi _ _ hc => ?_) fun t ht hi hno => ?_
  · obtain ⟨hkept,hheld⟩ := h.create t hkey hi (h.pre s t hpre ht hi) hfits g' he
    exact ⟨hkept,h.processLoaded hR hheld rfl hkept.1⟩
  · exact h.processLoaded hR (h.load t c hi (h.pre s t hpre ht hi) hc) (contract_key t.1 hc) hi
  · exact h.error t _ hi (.inl fun hfits => hno ⟨hfits,rfl⟩)

end Process
end Rules
end SafeDecoder.Worker
