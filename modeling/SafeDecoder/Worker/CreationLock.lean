import SafeDecoder.Library.Lease
import SafeDecoder.Worker.System

/-! # The lock of a chain

`create_safe_contracts_task_for_new_chains` sets a key that Redis may expire while
the task is still at work, and in the end it deletes the key, whoever has set it.
-/
namespace SafeDecoder.CreationLock
open Worker Machine

variable {pg : Postgres} (inst : Installation) (chainId : Int)

section Tasks

/-- The key of the lock -/
abbrev lockKey : RedisKey := .createSafeContracts chainId

inductive LockMove
  | expire

/-- Tasks for one chain. The key may expire at any time, and whatever the database
is asked for may raise. -/
def creations (pg : Postgres) :
    Machine Command Command.Answer PyError (World pg) DbSession LockMove Unit Unit where
  exec := fun w l c r w' l' => Exec (fun _ _ _ _ => True) w l c r w' l' ∨
    OnContracts c ∧ w' = w ∧ ∃ e, r = .error e
  move := fun _ w w' labels => w' = w.setRedis (lockKey chainId) none ∧ labels = []
  program := fun _ => createSafeContractsTaskForNewChains inst chainId
  session := active

abbrev CreationConfig (pg : Postgres) :=
  Config Command Command.Answer PyError (World pg) DbSession Unit Unit

abbrev CreationEvent := Event Command Command.Answer PyError LockMove

/-- Whose key it is, after each event. -/
def note (g : Lease ℕ) (_ : World pg) : CreationEvent → Lease ℕ
  | .own i (.redisSetNx key _) (.ok true) => if key = lockKey chainId then g.acquire i else g
  | .own i (.redisDelete key) _ => if key = lockKey chainId then g.release i else g
  | .env .expire => g.expire
  | _ => g

/-- The history of the lock in a run. -/
abbrev history (tr : List (World pg × CreationEvent)) : Lease ℕ :=
  observe (note chainId) Lease.free tr

/-- The task has the lock, and the next command is one of `create_safe_contracts`. -/
def Inside (tr : List (World pg × CreationEvent)) (c : CreationConfig pg) (i : ℕ) : Prop :=
  (history chainId tr).acquired i ∧ ∃ label l cmd next,
    c.threads[i]? = some ⟨label,l,.call cmd next⟩ ∧ cmd ≠ .redisDelete (lockKey chainId)

/-- No task has deleted the key of another, and of the tasks inside all but one have
seen their key expire. -/
structure Exclusive (tr : List (World pg × CreationEvent)) (c : CreationConfig pg) : Prop where
  own_key : ¬(history chainId tr).stolen
  alone : ∀ i j, Inside chainId tr c i → Inside chainId tr c j →
    ¬(history chainId tr).expired i → ¬(history chainId tr).expired j → i = j

end Tasks

section Rules
variable {inst chainId} {i : ℕ} {s : World pg × Lease ℕ}

/-- The key is there as long as somebody owns it; each task says what it has done itself. -/
def locking (chainId : Int) : Discipline (World pg × Lease ℕ) where
  inv := fun s => (s.1.redis (lockKey chainId) = none ↔ s.2.owner = none) ∧ s.2.Inv
  rely := fun i s t => (s.2.acquired i ↔ t.2.acquired i) ∧ (s.2.released i ↔ t.2.released i)
  guar := fun i s t => ¬s.2.released i ∧ ∀ k, k ≠ i →
    (s.2.acquired k ↔ t.2.acquired k) ∧ (s.2.released k ↔ t.2.released k)
  rely_refl := fun _ _ => ⟨Iff.rfl,Iff.rfl⟩
  rely_trans := fun _ _ _ _ h h' => ⟨h.1.trans h'.1,h.2.trans h'.2⟩

theorem locking_shared : (locking chainId : Discipline (World pg × Lease ℕ)).Shared :=
  fun {_ j _ _} hij h => h.2 j (Ne.symm hij)

/-- The contracts are in the database, not in Redis. -/
theorem redis_of_onContracts {c : Command} (hc : OnContracts c) {w w' : World pg} {l l' : DbSession}
    {answers : ContractSource → Bytes → Int → Except PyError (Option ContractMetadata)}
    {r : Except PyError c.Answer} (h : respond answers w l c = (r,w',l')) : w'.redis = w.redis := by
  cases respond_effect h with
  | idle => rfl
  | insertContract => rfl
  | _ => exact absurd hc id

theorem note_of_onContracts {c : Command} (hc : OnContracts c) (g : Lease ℕ) (w : World pg)
    (r : Except PyError c.Answer) : note chainId g w (.own i c r) = g := by
  cases c with
  | insertContract address chainId values => rfl
  | selectContract address chainId => rfl
  | rollback => rfl
  | _ => exact absurd hc id

/-- The task is between its two commands to Redis. -/
def Holding (i : ℕ) (s : World pg × Lease ℕ) : Prop := s.2.acquired i ∧ ¬s.2.released i

theorem body_meets (hs : Holding i s) (l : DbSession) :
    Meets (locking chainId) i ((creations inst chainId pg).recorded (note chainId) i)
      (fun _ t _ => Holding i t)
      ((createSafeContracts inst chainId 0 inst.deployments).bind fun _ => .ret ()) s l := by
  have hissues : Issues OnContracts
      ((createSafeContracts inst chainId 0 inst.deployments).bind fun _ => (.ret () : Worker.Task Unit)) :=
    (issues_createSafeContracts inst chainId 0 inst.deployments).bind fun _ => trivial
  refine hissues.keeps
    (fun t u ht htu _ => ⟨htu.1.mp ht.1,fun h => ht.2 (htu.2.mpr h)⟩)
    (fun c hc t l r t' l' hi ht he => ?_) hs
  obtain ⟨hexec,hg⟩ := he
  obtain ⟨w',g'⟩ := t'
  obtain rfl : g' = t.2 := hg.trans (note_of_onContracts hc _ _ _)
  have hredis : w'.redis = t.1.redis := by
    rcases hexec with ⟨answers,hr,-⟩ | ⟨-,hsame,-⟩
    · exact redis_of_onContracts hc hr
    · exact congrArg World.redis hsame
  refine ⟨⟨⟨?_,hi.2⟩,ht.2,fun _ _ => ⟨Iff.rfl,Iff.rfl⟩⟩,ht⟩
  change w'.redis _ = none ↔ _
  rw [hredis]
  exact hi.1

theorem delete_meets (hs : Holding i s) {β : Type} (next : Except PyError Unit → Worker.Task β)
    (l : DbSession) (hnext : ∀ t l, Meets (locking chainId) i
      ((creations inst chainId pg).recorded (note chainId) i) (fun _ _ _ => True) (next (.ok ())) t l) :
    Meets (locking chainId) i ((creations inst chainId pg).recorded (note chainId) i)
      (fun _ _ _ => True) (.call (.redisDelete (lockKey chainId)) next) s l := by
  refine Meets.call fun t ht hi r t' l' he => ?_
  obtain ⟨⟨answers,hr,-⟩ | ⟨hno,-⟩,hg⟩ := he
  · obtain ⟨w',g'⟩ := t'
    cases hr
    obtain rfl : g' = t.2.release i := hg.trans (if_pos rfl)
    have hreleased : ¬t.2.released i := fun h => hs.2 (ht.2.mpr h)
    refine ⟨⟨⟨?_,hi.2.release (ht.1.mp hs.1) hreleased⟩,hreleased,fun k hk => ?_⟩,hnext _ _⟩
    · simp [Lease.release]
    · simp [Lease.release, hk]
  · exact absurd hno id

theorem task_meets (hs : ¬s.2.acquired i) :
    Meets (locking chainId) i ((creations inst chainId pg).recorded (note chainId) i)
      (fun _ _ _ => True) (createSafeContractsTaskForNewChains inst chainId) s active := by
  refine Meets.call fun t ht hi r t' l' he => ?_
  have hnew : ¬t.2.acquired i := fun h => hs (ht.1.mpr h)
  have hreleased : ¬t.2.released i := fun h => hnew (hi.2.released_acquired i h)
  obtain ⟨⟨answers,hr,-⟩ | ⟨hno,-⟩,hg⟩ := he
  · obtain ⟨w',g'⟩ := t'
    simp only [respond] at hr
    cases hkey : t.1.redis (lockKey chainId) with
    | some value =>
      rw [hkey] at hr
      cases hr
      obtain rfl : g' = t.2 := hg
      exact ⟨⟨hi,hreleased,fun _ _ => ⟨Iff.rfl,Iff.rfl⟩⟩,Meets.ret fun _ _ _ => trivial⟩
    | none =>
      rw [hkey] at hr
      cases hr
      obtain rfl : g' = t.2.acquire i := hg.trans (if_pos rfl)
      refine ⟨⟨⟨?_,hi.2.acquire (hi.1.mp hkey) hnew⟩,hreleased,fun k hk => ?_⟩,?_⟩
      · simp [World.setRedis, Lease.acquire]
      · simp [Lease.acquire, hk]
      · have hholding : Holding i (t.1.setRedis (lockKey chainId) (some 1),t.2.acquire i) :=
          ⟨.inl rfl,hreleased⟩
        refine (body_meets hholding active).ensuring (fun _ u l _ hu => ?_) fun _ u l _ hu => ?_
        · exact delete_meets hu _ l fun _ _ => Meets.ret fun _ _ _ => trivial
        · exact delete_meets hu _ l fun _ _ => Meets.raise fun _ _ _ => trivial
  · exact absurd hno id

end Rules

section Main
variable {inst chainId}

theorem admits : (creations inst chainId pg).Admits (note chainId) (locking chainId)
    (fun _ _ => True) (fun _ _ _ _ _ => True) where
  shared := locking_shared
  own := fun _ => trivial
  move := by
    rintro ⟨⟩ w w' labels g ⟨rfl,rfl⟩ hi
    refine ⟨⟨?_,hi.2.expire⟩,fun i => ⟨Iff.rfl,Iff.rfl⟩⟩
    simp [World.setRedis, note, Lease.expire]
  grows := fun _ _ => trivial
  starts := by
    rintro ⟨⟩ w w' labels label g n j ⟨rfl,rfl⟩ _ _ _ hlabel
    cases hlabel

theorem creations_sound {w : World pg} (hfree : w.redis (lockKey chainId) = none)
    {labels : List Unit} {tr : List (World pg × CreationEvent)} {c : CreationConfig pg}
    (h : (creations inst chainId pg).Run ((creations inst chainId pg).initial w labels) tr c) :
    (creations inst chainId pg).Sound (note chainId) (locking chainId) (fun _ _ => True)
      (fun _ _ _ _ _ => True) c (history chainId tr) := by
  refine h.sound admits (sound_initial ⟨?_,Lease.free_inv⟩ trivial fun i _ _ => ?_)
  · simp [hfree, Lease.free]
  · exact task_meets id

/-- A task that has a command before it has not released the lock. -/
theorem Inside.live {tr : List (World pg × CreationEvent)} {c : CreationConfig pg}
    (hsound : (creations inst chainId pg).Sound (note chainId) (locking chainId) (fun _ _ => True)
      (fun _ _ _ _ _ => True) c (history chainId tr)) {i : ℕ} (h : Inside chainId tr c i)
    (he : ¬(history chainId tr).expired i) : (history chainId tr).Live i := by
  obtain ⟨hacquired,label,l,cmd,next,hi,-⟩ := h
  have hexec : (creations inst chainId pg).exec c.state l cmd (respond unasked c.state l cmd).1
      (respond unasked c.state l cmd).2.1 (respond unasked c.state l cmd).2.2 :=
    .inl ⟨unasked,rfl,fun _ _ _ _ => trivial⟩
  exact ⟨hacquired,(hsound.guar hi hexec).1,he⟩

/-- At every moment of every run: the lock has been exclusive if no task has come to
its deletion with its own key expired and a key there, and otherwise not. -/
theorem exclusive_iff {w : World pg} (hfree : w.redis (lockKey chainId) = none)
    {labels : List Unit} {tr : List (World pg × CreationEvent)} {c : CreationConfig pg}
    (h : (creations inst chainId pg).Run ((creations inst chainId pg).initial w labels) tr c) :
    Exclusive chainId tr c ↔ ¬(history chainId tr).overdue := by
  have hsound := creations_sound hfree h
  have hinv : (history chainId tr).Inv := hsound.inv.2
  constructor
  · intro hexclusive hoverdue
    exact hexclusive.own_key (hinv.stolen_iff.mpr hoverdue)
  · intro hoverdue
    refine ⟨fun hstolen => hoverdue (hinv.stolen_iff.mp hstolen),fun i j hi hj hei hej => ?_⟩
    exact hinv.live_unique hoverdue (hi.live hsound hei) (hj.live hsound hej)

end Main

section Examples
open Reference

def player : (creations installation 1 database).Player where
  respond := respond unasked
  move := fun _ w => some (w.setRedis (lockKey 1) none,[])
  respond_exec := fun _ _ _ => .inl ⟨unasked,rfl,fun _ _ _ _ => trivial⟩
  move_move := by
    rintro ⟨⟩ w w' labels h
    cases h
    exact ⟨rfl,rfl⟩

abbrev Performance := Played Command Command.Answer PyError (World database) DbSession LockMove Unit Unit

/-- The second task sets the key when the first one is through. -/
def inTurn : Performance :=
  play player ((creations installation 1 database).initial (World.empty database) [(), ()])
    [.inl 0, .inl 0, .inl 0, .inl 1]

theorem inTurn_exclusive : Exclusive 1 inTurn.1 inTurn.2 := by
  have hnever : ¬(history 1 inTurn.1).overdue := by
    rintro (h | ⟨h,-⟩)
    · exact h
    · exact h
  exact (exclusive_iff rfl (play_run player _ _)).mpr hnever

/-- The key of the first task expires and the second one sets it. The first one deletes
it in the end, and the third one comes in. -/
def outlived : Performance :=
  play player ((creations installation 1 database).initial (World.empty database) [(), (), ()])
    [.inl 0, .inr .expire, .inl 1, .inl 0, .inl 0, .inl 2]

theorem outlived_notExclusive :
    ∃ (tr : List (World database × CreationEvent)) (c : CreationConfig database),
      (creations installation 1 database).Run
        ((creations installation 1 database).initial (World.empty database) [(), (), ()]) tr c ∧
      (history 1 tr).stolen ∧ Inside 1 tr c 1 ∧ Inside 1 tr c 2 ∧
      ¬(history 1 tr).expired 1 ∧ ¬(history 1 tr).expired 2 ∧ ¬Exclusive 1 tr c := by
  have hstolen : (history 1 outlived.1).stolen := .inr ⟨1,rfl,by decide⟩
  refine ⟨outlived.1,outlived.2,play_run player _ _,hstolen,?_,?_,?_,?_,fun h => h.own_key hstolen⟩
  · exact ⟨.inr (.inl rfl),(),active,_,_,rfl,by simp⟩
  · exact ⟨.inl rfl,(),active,_,_,rfl,by simp⟩
  · rintro (h | h)
    · cases h
    · exact h
  · rintro (h | h)
    · cases h
    · exact h

end Examples
end SafeDecoder.CreationLock
