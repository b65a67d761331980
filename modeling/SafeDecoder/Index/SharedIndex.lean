import SafeDecoder.Calls.Growth

/-! # The index that requests share

One request at a time loads ABIs: the one that holds the lock. Everybody else only
reads the index, and as no entry is ever replaced or removed, a selector that has
been found once is found again.
-/
namespace SafeDecoder.Requests
open Effects SelectorIndex
variable {L : Externals} {db : Db} {multisend larger : Dict Bytes Json} {n : ℕ}

section Watching

/-- The index at the arrival of each request, who holds the lock, and whether
`self.fn_selectors_with_abis[selector]` has ever raised. -/
structure Ghost where
  arrivals : List (Dict Bytes Json)
  holder : Option ℕ
  missed : Prop

def watch (g : Ghost) (s : Backend) : Event Command Command.Answer PyError (Move L) → Ghost
  | .own i .acquire (.ok _) => { g with holder := some i }
  | .own _ .release (.ok _) => { g with holder := none }
  | .own _ (.getItem _) (.error _) => { g with missed := True }
  | .env (.arrive _) => { g with arrivals := g.arrivals ++ [s.fnSelectorsWithAbis] }
  | _ => g

/-- Nothing has arrived yet. -/
def Ghost.start : Ghost := ⟨[],none,False⟩

structure Inv (L : Externals) (larger : Dict Bytes Json) (s : Backend × Ghost) : Prop where
  locked : s.1.lockLoadNewAbis = s.2.holder.isSome
  known : ∀ k, s.2.holder = some k → k < s.2.arrivals.length
  valid : IndexValid L s.1.fnSelectorsWithAbis
  extends_larger : Extends s.1.fnSelectorsWithAbis larger
  missed : ¬s.2.missed

/-- What the others leave to the request with number `i`. -/
structure Rely (i : ℕ) (s t : Backend × Ghost) : Prop where
  extends_index : Extends s.1.fnSelectorsWithAbis t.1.fnSelectorsWithAbis
  holds : s.2.holder = some i ↔ t.2.holder = some i
  kept : s.2.holder = some i →
    t.1.fnSelectorsWithAbis = s.1.fnSelectorsWithAbis ∧ t.1.lastAbiId = s.1.lastAbiId
  arrivals : s.2.arrivals <+: t.2.arrivals

structure Guar (i : ℕ) (s t : Backend × Ghost) : Prop where
  extends_index : Extends s.1.fnSelectorsWithAbis t.1.fnSelectorsWithAbis
  holds : ∀ j, j ≠ i → (s.2.holder = some j ↔ t.2.holder = some j)
  kept : s.2.holder ≠ some i →
    t.1.fnSelectorsWithAbis = s.1.fnSelectorsWithAbis ∧ t.1.lastAbiId = s.1.lastAbiId
  arrivals : t.2.arrivals = s.2.arrivals

variable (L larger) in
def discipline : Discipline (Backend × Ghost) where
  inv := Inv L larger
  rely := Rely
  guar := Guar
  rely_refl := fun _ _ => ⟨.refl _,Iff.rfl,fun _ => ⟨rfl,rfl⟩,List.prefix_rfl⟩
  rely_trans := by
    intro i s t u h h'
    refine ⟨h.extends_index.trans h'.extends_index,h.holds.trans h'.holds,fun hi => ?_,
      h.arrivals.trans h'.arrivals⟩
    obtain ⟨hindex,hlast⟩ := h.kept hi
    obtain ⟨hindex',hlast'⟩ := h'.kept (h.holds.mp hi)
    exact ⟨hindex'.trans hindex,hlast'.trans hlast⟩

theorem discipline_shared : (discipline L larger).Shared := by
  intro i j s t hij h
  refine ⟨h.extends_index,h.holds j (Ne.symm hij),fun hj => h.kept fun hi => ?_,?_⟩
  · rw [hj] at hi
    exact hij (Option.some.inj hi).symm
  · exact h.arrivals ▸ List.prefix_rfl

variable (L db multisend larger n) in
/-- The endpoint as long as its index is a part of `larger`. -/
abbrev bounded : Machine Command Command.Answer PyError Backend Unit (Move L) (DataDecoderInput L)
    (Option (DataDecoded × DecodingAccuracy)) :=
  (endpoint L db multisend n).confine fun s => Extends s.fnSelectorsWithAbis larger

variable (L db multisend larger n) in
/-- A command of the request with number `i`. -/
abbrev Does (i : ℕ) : Backend × Ghost → Unit → (c : Command) → Except PyError c.Answer →
    Backend × Ghost → Unit → Prop := (bounded L db multisend larger n).recorded watch i

abbrev Keeps (i : ℕ) (L : Externals) (larger : Dict Bytes Json) (s t : Backend × Ghost) : Prop :=
  (discipline L larger).inv t ∧ (discipline L larger).guar i s t

theorem keeps_refl {i : ℕ} {s : Backend × Ghost} (hs : Inv L larger s) : Keeps i L larger s s :=
  ⟨hs,.refl _,fun _ _ => Iff.rfl,fun _ => ⟨rfl,rfl⟩,rfl⟩

end Watching

section Commands
variable {i : ℕ} {s t : Backend × Ghost} {c : Command} {r : Except PyError c.Answer} {l l' : Unit}

/-- An entry that is there is found. -/
theorem does_getItem {k : Bytes} {f : Json} {r : Except PyError Json}
    (hf : s.1.fnSelectorsWithAbis.lookup k = some f)
    (h : Does L db multisend larger n i s l (.getItem k) r t l') : r = .ok f ∧ t = s := by
  obtain ⟨t,g⟩ := t
  obtain ⟨⟨he,_⟩,hg⟩ := h
  cases he with
  | getItem found =>
    rw [hf] at found
    cases found
    cases hg
    exact ⟨rfl,rfl⟩
  | missing hm => exact absurd (AList.lookup_isSome.mp (Option.isSome_of_eq_some hf)) hm
  | failed hw _ => cases hw

theorem does_contains {k : Bytes} {r : Except PyError Bool}
    (h : Does L db multisend larger n i s l (.contains k) r t l') :
    r = .ok (decide (k ∈ s.1.fnSelectorsWithAbis)) ∧ t = s := by
  obtain ⟨t,g⟩ := t
  obtain ⟨⟨he,_⟩,hg⟩ := h
  cases he with
  | contains k =>
    cases hg
    exact ⟨rfl,rfl⟩
  | failed hw _ => cases hw

theorem does_contractAbi {address : AddressKey} {chainId : Option Int}
    {r : Except PyError (Option Json)}
    (h : Does L db multisend larger n i s l (.contractAbi address chainId) r t l') :
    Outcomes.orFailed IsFailure (queryContractAbi L db address chainId) r ∧ t = s := by
  obtain ⟨t,g⟩ := t
  obtain ⟨⟨he,_⟩,hg⟩ := h
  cases he with
  | contractAbi found =>
    cases hg
    exact ⟨.inl found.symm,rfl⟩
  | failed _ hf =>
    cases hg
    exact ⟨.inr ⟨_,rfl,hf⟩,rfl⟩

/-- What a reload does while it holds the lock. -/
def Loads (L : Externals) : Command → Prop
  | .addSelectors items => ∀ k f, (k,f) ∈ items →
      isFunctionEntry f ∧ L.functionAbiTo4byteSelector f = .ok k
  | .acquire | .release | .getItem _ => False
  | _ => True

theorem indexValid_addSelectors {index : Dict Bytes Json} {items : List (Bytes × Json)}
    (h : IndexValid L index) (hitems : Loads L (.addSelectors items)) :
    IndexValid L (addSelectors index items).1 := by
  intro k f hf
  rw [addSelectors_fst, Dict.lookup_fillMissing] at hf
  rcases Option.or_eq_some_iff.mp hf with hf | ⟨_,hf⟩
  · exact h k f hf
  · exact hitems k f (Dict.mem_of_lookup hf)

theorem does_load (hc : Loads L c) (hs : Inv L larger s) (hi : s.2.holder = some i)
    (h : Does L db multisend larger n i s l c r t l') :
    Keeps i L larger s t ∧ t.2.holder = some i := by
  obtain ⟨t,g⟩ := t
  obtain ⟨⟨he,hlarger⟩,hg⟩ := h
  have hextends := he.extends
  have hghost : g = s.2 := by
    refine hg.trans ?_
    cases c <;> first | exact hc.elim | rfl
  subst hghost
  have hlocked : t.lockLoadNewAbis = s.1.lockLoadNewAbis := by
    cases he <;> first | exact hc.elim | rfl
  have hvalid : IndexValid L t.fnSelectorsWithAbis := by
    cases he with
    | addSelectors items => exact indexValid_addSelectors hs.valid hc
    | acquire => exact hc.elim
    | release => exact hc.elim
    | _ => exact hs.valid
  refine ⟨⟨⟨hlocked.trans hs.locked,hs.known,hvalid,hlarger,hs.missed⟩,hextends,fun _ _ => Iff.rfl,
    fun hne => absurd hi hne,rfl⟩,hi⟩

theorem does_acquire {r : Except PyError Unit} (hs : Inv L larger s) (hi : i < s.2.arrivals.length)
    (h : Does L db multisend larger n i s l .acquire r t l') :
    (r = .ok () ∧ Keeps i L larger s t ∧ t.2.holder = some i ∧ t.2.arrivals = s.2.arrivals ∧
      t.1.fnSelectorsWithAbis = s.1.fnSelectorsWithAbis) ∨ ((∃ e, r = .error e) ∧ t = s) := by
  obtain ⟨t,g⟩ := t
  obtain ⟨⟨he,hlarger⟩,hg⟩ := h
  cases he with
  | acquire free =>
    have hnone : s.2.holder = none := by
      have hlocked := hs.locked
      rw [free] at hlocked
      exact Option.isSome_eq_false_iff.mp hlocked.symm |> Option.isNone_iff_eq_none.mp
    cases hg
    refine .inl ⟨rfl,⟨⟨rfl,fun k hk => ?_,hs.valid,hs.extends_larger,hs.missed⟩,.refl _,fun j hj => ?_,
      fun _ => ⟨rfl,rfl⟩,rfl⟩,rfl,rfl,rfl⟩
    · cases hk
      exact hi
    · rw [hnone]
      simp [Ne.symm hj]
  | failed _ hf =>
    cases hg
    exact .inr ⟨⟨_,rfl⟩,rfl⟩

theorem does_release {r : Except PyError Unit} (hs : Inv L larger s) (hi : s.2.holder = some i)
    (h : Does L db multisend larger n i s l .release r t l') :
    r = .ok () ∧ Keeps i L larger s t ∧ t.2.holder = none ∧ t.2.arrivals = s.2.arrivals ∧
      t.1.fnSelectorsWithAbis = s.1.fnSelectorsWithAbis := by
  obtain ⟨t,g⟩ := t
  obtain ⟨⟨he,hlarger⟩,hg⟩ := h
  cases he with
  | release held =>
    cases hg
    refine ⟨rfl,⟨⟨rfl,fun k hk => (by cases hk),hs.valid,hs.extends_larger,hs.missed⟩,.refl _,fun j hj => ?_,
      fun hne => absurd hi hne,rfl⟩,rfl,rfl,rfl⟩
    rw [hi]
    simp [Ne.symm hj]
  | notAcquired free =>
    have hlocked := hs.locked
    rw [free, hi] at hlocked
    cases hlocked
  | failed hw _ => cases hw

end Commands

section Loading
variable {i : ℕ} {lower : Dict Bytes Json}

theorem issues_issue {p : Command → Prop} (c : Command) (h : p c) : Issues p (issue c) :=
  Issues.perform h

theorem issues_addAbi (abi : Json) : Issues (Loads L) (addAbi L abi) := by
  refine (issues_issue .generateSelectors trivial).bind fun _ => ?_
  cases hd : generateSelectorsWithAbisFromAbi L abi with
  | error e => trivial
  | ok d =>
    refine issues_issue (.addSelectors d.items) ?_
    intro k f hmem
    have hlookup : (selectors L abi).lookup k = some f := by
      rw [selectors_of_ok hd]
      obtain ⟨e,he,heq⟩ := List.mem_map.mp hmem
      cases heq
      exact AList.mem_lookup_iff.mpr he
    exact ⟨(selectors_lookup hlookup).1,(selectors_lookup hlookup).2.1⟩

theorem issues_addAbis (loaded : ℕ) (abis : List Json) :
    Issues (Loads L) (addAbis L loaded abis) := by
  induction abis generalizing loaded with
  | nil => exact (issues_issue .nextRow trivial).bind fun _ => trivial
  | cons abi rest ih =>
    refine (issues_issue .nextRow trivial).bind fun _ => ?_
    exact (issues_addAbi abi).bind fun updated => ih _

/-- Under the lock a reload adds functions under their own selectors. -/
theorem issues_reload : Issues (Loads L) (reload L) := by
  refine (issues_issue .lastAbiId trivial).bind fun previous => ?_
  refine (issues_issue .lastInsertedId trivial).bind fun last => ?_
  refine (issues_issue (.setLastAbiId last) trivial).bind fun _ => ?_
  cases previous with
  | none => exact (issues_issue .sortedByRelevance trivial).bind fun abis => issues_addAbis 0 abis
  | some previous =>
    dsimp only
    split
    · exact (issues_issue (.idGreaterThan previous) trivial).bind fun abis => issues_addAbis 0 abis
    · trivial

/-- A request that arrived when the index was `lower`, and that does not hold the lock. -/
structure Serving (i : ℕ) (lower : Dict Bytes Json) (s : Backend × Ghost) : Prop where
  waiting : s.2.holder ≠ some i
  arrived : s.2.arrivals[i]? = some lower
  extends_lower : Extends lower s.1.fnSelectorsWithAbis

theorem Serving.rely {s t : Backend × Ghost} (h : Serving i lower s) (hst : Rely i s t) :
    Serving i lower t := by
  refine ⟨fun hi => h.waiting (hst.holds.mpr hi),?_,h.extends_lower.trans hst.extends_index⟩
  obtain ⟨rest,hrest⟩ := hst.arrivals
  rw [← hrest, List.getElem?_append_left (List.getElem?_eq_some_iff.mp h.arrived).1]
  exact h.arrived

/-- The same request while it holds the lock. -/
structure Reloading (i : ℕ) (lower : Dict Bytes Json) (s : Backend × Ghost) : Prop where
  holding : s.2.holder = some i
  arrived : s.2.arrivals[i]? = some lower
  extends_lower : Extends lower s.1.fnSelectorsWithAbis

theorem Reloading.rely {s t : Backend × Ghost} (h : Reloading i lower s) (hst : Rely i s t) :
    Reloading i lower t := by
  refine ⟨hst.holds.mp h.holding,?_,h.extends_lower.trans hst.extends_index⟩
  obtain ⟨rest,hrest⟩ := hst.arrivals
  rw [← hrest, List.getElem?_append_left (List.getElem?_eq_some_iff.mp h.arrived).1]
  exact h.arrived

theorem reload_meets {s : Backend × Ghost} {l : Unit} (hs : Reloading i lower s) :
    Meets (discipline L larger) i (Does L db multisend larger n i) (fun _ t _ => Reloading i lower t)
      (reload L) s l := by
  refine issues_reload.keeps (fun s t hs hst _ => hs.rely hst) (fun c hc t l r t' l' hi ht he => ?_) hs
  obtain ⟨hkeeps,hholder⟩ := does_load hc hi ht.holding he
  refine ⟨hkeeps,hholder,?_,ht.extends_lower.trans hkeeps.2.extends_index⟩
  rw [hkeeps.2.arrivals]
  exact ht.arrived

/-- However a reload ends, the request does not hold the lock afterwards. -/
theorem loadNewAbis_meets {s : Backend × Ghost} {l : Unit} (hs : Serving i lower s) :
    Meets (discipline L larger) i (Does L db multisend larger n i) (fun _ t _ => Serving i lower t)
      (loadNewAbis L) s l := by
  have hrelease : ∀ {x : Request ℕ} {s : Backend × Ghost} {l : Unit}, Reloading i lower s →
      (∀ t l, Serving i lower t → Meets (discipline L larger) i (Does L db multisend larger n i)
        (fun _ t _ => Serving i lower t) x t l) →
      Meets (discipline L larger) i (Does L db multisend larger n i) (fun _ t _ => Serving i lower t)
        ((issue .release).bind fun _ => x) s l := by
    intro x s l hs hx
    apply Meets.call
    intro t hst hi r t' l' he
    have ht := hs.rely hst
    obtain ⟨rfl,hkeeps,hnone,harrivals,hindex⟩ := does_release hi ht.holding he
    refine ⟨hkeeps,hx t' l' ⟨by simp [hnone],?_,?_⟩⟩
    · rw [harrivals]
      exact ht.arrived
    · rw [hindex]
      exact ht.extends_lower
  refine Meets.handle (Q := fun _ t _ => Serving i lower t) ?_ (fun a t l _ ht => ht) fun e t l hi ht => ?_
  · apply Meets.call
    intro t hst hi r t' l' he
    have ht := hs.rely hst
    have hlocked := does_acquire hi (List.getElem?_eq_some_iff.mp ht.arrived).1 he
    rcases hlocked with ⟨rfl,hkeeps,hholder,harrivals,hindex⟩ | ⟨⟨e,rfl⟩,rfl⟩
    · have ht' : Reloading i lower t' := by
        refine ⟨hholder,?_,?_⟩
        · rw [harrivals]
          exact ht.arrived
        · rw [hindex]
          exact ht.extends_lower
      refine ⟨hkeeps,(reload_meets ht').ensuring (fun a u l _ hu => hrelease hu fun v l hv => ?_)
        fun e u l _ hu => hrelease hu fun v l hv => ?_⟩
      · exact Meets.ret fun w hvw _ => hv.rely hvw
      · exact Meets.raise fun w hvw _ => hv.rely hvw
    · exact ⟨keeps_refl hi,Meets.raise fun u hu _ => ht.rely hu⟩
  · split
    · exact Meets.ret fun u hu _ => ht.rely hu
    · exact Meets.raise fun u hu _ => ht.rely hu

/-- What every request keeps to, besides what it may end with. -/
abbrev sized (g : Ghost) (k : ℕ) : Prop := g.arrivals.length = k

/-- The request that arrives finds its own number free. -/
theorem serving_arrival {s : Backend} {g : Ghost} {k : ℕ} (hk : sized g k) (hs : Inv L larger (s,g)) :
    Serving k s.fnSelectorsWithAbis
      (s,{ g with arrivals := g.arrivals ++ [s.fnSelectorsWithAbis] }) := by
  refine ⟨fun hholder => ?_,?_,.refl _⟩
  · have hlt := hs.known k hholder
    rw [hk] at hlt
    exact absurd hlt (lt_irrefl k)
  · rw [← hk]
    exact List.getElem?_concat_length ..

theorem watch_own_sized {g : Ghost} {s : Backend} {k j : ℕ} {c : Command} {r : Except PyError c.Answer}
    (h : sized g k) : sized (watch g s (.own j c r : Event Command Command.Answer PyError (Move L))) k := by
  cases c <;> cases r <;> exact h

/-- Where arriving requests keep the discipline, the surroundings do. -/
theorem bounded_admits {Q : ℕ → DataDecoderInput L →
      Except PyError (Option (DataDecoded × DecodingAccuracy)) → Backend × Ghost → Unit → Prop}
    (h : ∀ i lower s l input, Serving i lower s → Meets (discipline L larger) i
      (Does L db multisend larger n i) (Q i input) (dataDecoder L multisend n input) s l) :
    (bounded L db multisend larger n).Admits watch (discipline L larger) sized Q where
  shared := discipline_shared
  own := watch_own_sized
  move := by
    rintro move s s' labels g ⟨hm,hlarger⟩ hinv
    cases hm with
    | rows abis => exact ⟨⟨hinv.locked,hinv.known,hinv.valid,hlarger,hinv.missed⟩,
        fun i => ⟨.refl _,Iff.rfl,fun _ => ⟨rfl,rfl⟩,List.prefix_rfl⟩⟩
    | arrive input =>
      refine ⟨⟨hinv.locked,fun k hk => ?_,hinv.valid,hlarger,hinv.missed⟩,
        fun i => ⟨.refl _,Iff.rfl,fun _ => ⟨rfl,rfl⟩,List.prefix_append _ _⟩⟩
      have hlt := hinv.known k hk
      change k < (g.arrivals ++ [s.fnSelectorsWithAbis]).length
      rw [List.length_append]
      exact Nat.lt_add_right _ hlt
  grows := by
    rintro move s s' labels g k ⟨hm,_⟩ hk
    cases hm with
    | rows abis => exact hk
    | arrive input =>
      change (g.arrivals ++ [s.fnSelectorsWithAbis]).length = k + 1
      rw [List.length_append, hk]
      rfl
  starts := by
    rintro move s s' labels label g k j ⟨hm,_⟩ hk hinv _ hj
    cases hm with
    | rows abis => cases hj
    | arrive input =>
      obtain ⟨rfl,rfl⟩ : j = 0 ∧ input = label := by
        cases j with
        | zero => exact ⟨rfl,Option.some.inj hj⟩
        | succ j => cases hj
      exact h _ _ _ _ _ (serving_arrival hk hinv)

end Loading
end SafeDecoder.Requests
