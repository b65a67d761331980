import SafeDecoder.Answers.Accuracy
import SafeDecoder.Index.SharedIndex

/-! # Later answers show no less

A request looks up functions while others load ABIs. Each lookup sees the index of
the moment in which it asked whether the selector is supported, so a whole decoding
lies between the decodings with the index at its arrival and with the index at its
end. A request that comes after an answer therefore shows what that answer showed.
-/
namespace SafeDecoder.Requests
open Effects SelectorIndex Containment Growth Outcomes
variable {L : Externals} {db : Db} {multisend larger lower : Dict Bytes Json} {n i : ℕ}

section Lookups
variable {s : Backend × Ghost} {l : Unit} {I : Backend × Ghost → Prop}
  (hrely : ∀ s t, I s → Rely i s t → Inv L larger t → I t)
include hrely

variable (db multisend n) in
/-- While `I` is kept, a program has the outcomes of its text. -/
abbrev outcomesOf : MonadRel PyError Request (Outcomes PyError) :=
  Outcomes.ofMeets (discipline L larger) i (Does L db multisend larger n i) I hrely

theorem contractAbi_outcomes (key : AddressKey) (chainId : Option Int) :
    (outcomesOf db multisend n hrely).Rel (issue (.contractAbi key chainId))
      (orFailed IsFailure (queryContractAbi L db key chainId)) := by
  intro s l hs
  apply Meets.call
  intro t hst hi r t' l' he
  obtain ⟨hr,rfl⟩ := does_contractAbi he
  refine ⟨keeps_refl hi,?_⟩
  cases r with
  | ok found => exact Meets.ret fun u hu hiu => ⟨hrely _ _ (hrely _ _ hs hst hi) hu hiu,hr⟩
  | error e => exact Meets.raise fun u hu hiu => ⟨hrely _ _ (hrely _ _ hs hst hi) hu hiu,hr⟩

omit hrely in
theorem contractSelectors_follows (key : AddressKey) (chainId : Option Int) :
    Follows IsFailure (contractSelectors L db key chainId)
      (contractSelectorsWith L (fun c => orFailed IsFailure (queryContractAbi L db key c)) chainId) := by
  refine Follows.bind (fun _ h => h) fun abi => Follows.bind ?_ fun abi => ?_
  · split
    · exact fun _ h => h
    · exact Follows.lift (.ok abi)
  · cases abi.filter Json.truthy with
    | none => exact Follows.lift (.ok none)
    | some abi =>
      simp only [← bind_pure_comp]
      exact Follows.bind (fun r h => .inl (by rw [fromExcept_iff.mp h, fromExcept_eq])) fun d =>
        Follows.lift (.ok (some d))

/-- An entry that has been seen in the index is still there. -/
theorem getItem_outcomes {k : Bytes} {f : Json}
    (hk : ∀ s, I s → s.1.fnSelectorsWithAbis.lookup k = some f) :
    (outcomesOf db multisend n hrely).Rel (some <$> issue (.getItem k)) (pure (some f)) := by
  intro s l hs
  apply Meets.call
  intro t hst hi r t' l' he
  have ht := hrely _ _ hs hst hi
  obtain ⟨rfl,rfl⟩ := does_getItem (hk t ht) he
  exact ⟨keeps_refl hi,Meets.ret fun u hu hiu => ⟨hrely _ _ ht hu hiu,rfl⟩⟩

/-- Once the selector is known to be in the index, so is the function that is found. -/
theorem getSupportedFunction_outcomes {index : Dict Bytes Json} {general : Json} {data : Bytes}
    (hindex : index.lookup (selectorOf data) = some general)
    (hk : ∀ s, I s → s.1.fnSelectorsWithAbis.lookup (selectorOf data) = some general)
    (address : Option PyVal) (chainId : Option Int) :
    (outcomesOf db multisend n hrely).Rel (getSupportedFunction L data address chainId)
      (orFailed IsFailure (resolve L db index data address chainId)) := by
  rw [getSupportedFunction, resolve, abiFunctionWith, hindex]
  cases address.filter PyVal.truthy with
  | none => exact Outcomes.ofMeets_mono (getItem_outcomes hrely hk) fun r hr => .inl hr
  | some a =>
    let found (specific : Option (Dict Bytes Json)) : Option Json :=
      some ((specific.bind fun d => d.lookup (selectorOf data)).getD general)
    have hrun : (outcomesOf db multisend n hrely).Rel (do
        let key ← fromExcept (Externals.addressKey a)
        let specific ← contractSelectorsWith L (fun c => issue (.contractAbi key c)) chainId
        specificOrIndexed data (specific.bind fun d => d.lookup (selectorOf data)))
        (do
          let key ← fromExcept (Externals.addressKey a)
          let specific ← contractSelectorsWith L
            (fun c => orFailed IsFailure (queryContractAbi L db key c)) chainId
          return found specific) := by
      apply MonadRel.bind _ (MonadRel.lift _ _)
      intro key
      apply MonadRel.bind _ (contractSelectorsWith_rel _ (contractAbi_outcomes hrely key) chainId)
      intro specific
      change (outcomesOf db multisend n hrely).Rel _ (pure (some
        ((specific.bind fun d => d.lookup (selectorOf data)).getD general)))
      cases specific.bind fun d => d.lookup (selectorOf data) with
      | some f => exact MonadRel.pure _ (some f)
      | none => exact getItem_outcomes hrely hk
    refine Outcomes.ofMeets_mono hrun (Follows.bind (fun r h => ?_) fun key => ?_)
    · exact .inl (by rw [fromExcept_iff.mp h, fromExcept_eq])
    · exact Follows.bind (contractSelectors_follows key chainId) fun specific => Follows.lift (.ok _)

/-- A lookup sees the index of the moment in which it asks for the selector. -/
theorem getAbiFunction_outcomes (hlower : ∀ s, I s → Extends lower s.1.fnSelectorsWithAbis)
    (data : Bytes) (address : Option PyVal) (chainId : Option Int) :
    (outcomesOf db multisend n hrely).Rel (getAbiFunction L data address chainId)
      (Between L db lower larger data address chainId) := by
  intro s l hs
  apply Meets.call
  intro t hst hi r t' l' he
  have ht := hrely _ _ hs hst hi
  obtain ⟨rfl,rfl⟩ := does_contains he
  refine ⟨keeps_refl hi,?_⟩
  have hmid : ∀ r, orFailed IsFailure (resolve L db t'.1.fnSelectorsWithAbis data address chainId) r →
      Between L db lower larger data address chainId r :=
    fun r hr => ⟨_,hlower _ ht,hi.extends_larger,hr⟩
  by_cases hk : selectorOf data ∈ t'.1.fnSelectorsWithAbis
  · obtain ⟨general,hgeneral⟩ := Option.isSome_iff_exists.mp (AList.lookup_isSome.mpr hk)
    have hkept : ∀ s t : Backend × Ghost,
        (I s ∧ s.1.fnSelectorsWithAbis.lookup (selectorOf data) = some general) → Rely i s t →
          Inv L larger t → I t ∧ t.1.fnSelectorsWithAbis.lookup (selectorOf data) = some general :=
      fun s t hs hst hi => ⟨hrely s t hs.1 hst hi,hst.extends_index _ _ hs.2⟩
    have hrun : (outcomesOf db multisend n hkept).Rel (getSupportedFunction L data address chainId)
        (orFailed IsFailure (resolve L db t'.1.fnSelectorsWithAbis data address chainId)) :=
      getSupportedFunction_outcomes hkept hgeneral (fun s hs => hs.2) address chainId
    simp only [decide_eq_true hk]
    exact (hrun t' l' ⟨ht,hgeneral⟩).mono fun r u _ _ hr => ⟨hr.1.1,hmid r hr.2⟩
  · simp only [decide_eq_false hk]
    refine Meets.ret fun u hu hiu => ⟨hrely _ _ ht hu hiu,hmid _ (.inl ?_)⟩
    rw [resolve, abiFunctionWith, AList.lookup_eq_none.mpr hk]
    rfl

/-- The decoding is one of those that lookups between two indices give. -/
theorem getDataDecoded_outcomes (hlower : ∀ s, I s → Extends lower s.1.fnSelectorsWithAbis) (m : ℕ)
    (data : Bytes) (address : Option PyVal) (chainId : Option Int) :
    (outcomesOf db multisend n hrely).Rel (getDataDecoded L multisend m data address chainId)
      (getDataDecodedWith L multisend (Between L db lower larger) m data address chainId) :=
  getDataDecodedWith_rel _ (getAbiFunction_outcomes hrely hlower) m data address chainId

/-- What is decoded has a selector in the index. -/
theorem getDataDecoded_supported (m : ℕ) (data : Bytes) (address : Option PyVal) (chainId : Option Int)
    (hs : I s) : Meets (discipline L larger) i (Does L db multisend larger n i)
      (fun r t _ => ∀ d, r = .ok (some d) → selectorOf data ∈ t.1.fnSelectorsWithAbis)
      (getDataDecoded L multisend m data address chainId) s l := by
  have hkept : ∀ s t : Backend × Ghost, (I s ∧ selectorOf data ∈ s.1.fnSelectorsWithAbis) →
      Rely i s t → Inv L larger t → I t ∧ selectorOf data ∈ t.1.fnSelectorsWithAbis :=
    fun s t hs hst hi => ⟨hrely s t hs.1 hst hi,hst.extends_index.mem hs.2⟩
  have hrun : (outcomesOf db multisend n hkept).Rel (getDataDecoded L multisend m data address chainId)
      (getDataDecodedWith L multisend (Between L db ∅ larger) m data address chainId) :=
    getDataDecoded_outcomes hkept (fun _ _ k f h => by cases h) m data address chainId
  cases m with
  | zero => exact Meets.raise fun _ _ _ d h => by cases h
  | succ m =>
    unfold getDataDecoded at hrun ⊢
    rw [getDataDecodedWith] at hrun ⊢
    cases hne : data.isEmpty with
    | true => exact Meets.ret fun _ _ _ d h => by cases h
    | false =>
      have hnot : ¬data.isEmpty := by rw [hne]; exact Bool.false_ne_true
      rw [hne, if_neg Bool.false_ne_true, decodeTransactionWithTypesWith, decodeDataWith, if_neg hnot]
        at hrun
      rw [if_neg Bool.false_ne_true, decodeTransactionWithTypesWith, decodeDataWith, if_neg hnot]
      apply Meets.call
      intro t hst hi r t' l' he
      -- the first command asks for the selector, and what follows depends on the answer
      by_cases hk : selectorOf data ∈ t.1.fnSelectorsWithAbis
      · obtain ⟨hkeeps,hnext⟩ := hrun t l ⟨hrely _ _ hs hst hi,hk⟩ t ((discipline L larger).rely_refl i t)
          hi r t' l' he
        exact ⟨hkeeps,hnext.mono fun r u _ _ hr d _ => hr.1.2⟩
      · obtain ⟨rfl,rfl⟩ := does_contains he
        simp only [decide_eq_false hk]
        exact ⟨keeps_refl hi,Meets.ret fun _ _ _ d h => by cases h⟩

end Lookups

section Accuracy
variable {s : Backend × Ghost} {l : Unit} {I : Backend × Ghost → Prop}
  (hrely : ∀ s t, I s → Rely i s t → Inv L larger t → I t)
include hrely

theorem contractAbi_meets {key : AddressKey} {c : Option Int}
    {next : Except PyError (Option Json) → Request DecodingAccuracy} (hs : I s)
    (hok : ∀ found s l, I s → Meets (discipline L larger) i (Does L db multisend larger n i)
      (fun r t _ => I t ∧ r ≠ .ok .noMatch) (next (.ok found)) s l)
    (herror : ∀ e, next (.error e) = .raise e) :
    Meets (discipline L larger) i (Does L db multisend larger n i)
      (fun r t _ => I t ∧ r ≠ .ok .noMatch) (.call (.contractAbi key c) next) s l := by
  apply Meets.call
  intro t hst hi r t' l' he
  obtain ⟨_,rfl⟩ := does_contractAbi he
  have ht := hrely _ _ hs hst hi
  cases r with
  | ok found => exact ⟨keeps_refl hi,hok found _ _ ht⟩
  | error e =>
    have hraise : Meets (discipline L larger) i (Does L db multisend larger n i)
        (fun r t _ => I t ∧ r ≠ .ok DecodingAccuracy.noMatch) (.raise e) t' l' :=
      Meets.raise fun u hu hiu => ⟨hrely _ _ ht hu hiu,fun h => by cases h⟩
    rw [← herror e] at hraise
    exact ⟨keeps_refl hi,hraise⟩

theorem contractAccuracy_meets (key : AddressKey) (chainId : Option Int) (hs : I s) :
    Meets (discipline L larger) i (Does L db multisend larger n i)
      (fun r t _ => I t ∧ r ≠ .ok .noMatch) (contractAccuracy key chainId) s l := by
  have hret : ∀ {a : DecodingAccuracy} {s : Backend × Ghost} {l : Unit}, I s → a ≠ .noMatch →
      Meets (discipline L larger) i (Does L db multisend larger n i)
        (fun r t _ => I t ∧ r ≠ .ok .noMatch) (.ret a) s l := fun hs ha =>
    Meets.ret fun t ht hi => ⟨hrely _ _ hs ht hi,fun h => ha (Except.ok.inj h)⟩
  have hpartial : ∀ s l, I s → Meets (discipline L larger) i (Does L db multisend larger n i)
      (fun r t _ => I t ∧ r ≠ .ok .noMatch) ((issue (.contractAbi key none)).bind fun found =>
        return if found.any Json.truthy then DecodingAccuracy.partialMatch else .onlyFunctionMatch)
      s l := by
    intro s l hs
    refine contractAbi_meets hrely hs (fun found s l hs => hret hs ?_) fun e => rfl
    split <;> decide
  cases chainId with
  | none => exact hpartial s l hs
  | some chain =>
    refine contractAbi_meets hrely hs (fun found s l hs => ?_) fun e => rfl
    change Meets _ _ _ _ (if Option.any Json.truthy found then Proc.ret DecodingAccuracy.fullMatch else _)
      s l
    split
    · exact hret hs fun h => by cases h
    · exact hpartial s l hs

/-- A selector that is in the index has an accuracy. -/
theorem getDecodingAccuracy_meets {data : Bytes} (hs : I s)
    (hk : selectorOf data ∈ s.1.fnSelectorsWithAbis) (address : Option PyVal) (chainId : Option Int) :
    Meets (discipline L larger) i (Does L db multisend larger n i)
      (fun r t _ => I t ∧ r ≠ .ok .noMatch) (getDecodingAccuracy data address chainId) s l := by
  apply Meets.call
  intro t hst hi r t' l' he
  obtain ⟨rfl,rfl⟩ := does_contains he
  have hmem : selectorOf data ∈ t'.1.fnSelectorsWithAbis := Extends.mem (Rely.extends_index hst) hk
  have ht := hrely _ _ hs hst hi
  refine ⟨keeps_refl hi,?_⟩
  simp only [decide_eq_true hmem]
  cases address with
  | none => exact Meets.ret fun u hu hiu => ⟨hrely _ _ ht hu hiu,fun h => by cases h⟩
  | some a =>
    change Meets _ _ _ _ ((fromExcept (Externals.addressKey a) : Request _).bind fun key =>
      contractAccuracy key chainId) t' l'
    cases Externals.addressKey a with
    | error e => exact Meets.raise fun u hu hiu => ⟨hrely _ _ ht hu hiu,fun h => by cases h⟩
    | ok key => exact contractAccuracy_meets hrely key chainId ht

end Accuracy

section Answers

/-- What a request may end with that arrived when the index was `lower`. -/
inductive Answered (L : Externals) (db : Db) (multisend : Dict Bytes Json) (n : ℕ)
    (lower larger : Dict Bytes Json) (input : DataDecoderInput L) :
    Except PyError (Option (DataDecoded × DecodingAccuracy)) → Prop
  | raised (e : PyError) : Answered L db multisend n lower larger input (.error e)
  | notFound {data : Bytes} (hdata : L.hexstrToBytes input.data = .ok data)
      (h : getDataDecodedWith L multisend (Between L db lower larger) n data input.address
        input.chainId (.ok none)) : Answered L db multisend n lower larger input (.ok none)
  | found {data : Bytes} {d : DataDecoded} {accuracy : DecodingAccuracy}
      (hdata : L.hexstrToBytes input.data = .ok data)
      (h : getDataDecodedWith L multisend (Between L db lower larger) n data input.address
        input.chainId (.ok (some d))) (haccuracy : accuracy ≠ .noMatch) :
      Answered L db multisend n lower larger input (.ok (some (d,accuracy)))

theorem dataDecoder_meets {s : Backend × Ghost} {l : Unit} (hs : Serving i lower s)
    (input : DataDecoderInput L) :
    Meets (discipline L larger) i (Does L db multisend larger n i)
      (fun r t _ => t.2.holder ≠ some i ∧ ∃ lower, t.2.arrivals[i]? = some lower ∧
        Answered L db multisend n lower larger input r) (dataDecoder L multisend n input) s l := by
  have hrely : ∀ s t : Backend × Ghost, Serving i lower s → Rely i s t → Inv L larger t →
      Serving i lower t := fun s t hs hst _ => hs.rely hst
  have hraise : ∀ {s : Backend × Ghost} {l : Unit} {e : PyError}, Serving i lower s →
      Meets (discipline L larger) i (Does L db multisend larger n i)
        (fun r t _ => t.2.holder ≠ some i ∧ ∃ lower, t.2.arrivals[i]? = some lower ∧
          Answered L db multisend n lower larger input r) (.raise e) s l :=
    fun hs => Meets.raise fun t ht _ => ⟨(hs.rely ht).waiting,_,(hs.rely ht).arrived,.raised _⟩
  refine (loadNewAbis_meets hs).bind (fun loaded s l _ hs => ?_) fun e t l _ ht =>
    ⟨ht.waiting,_,ht.arrived,.raised e⟩
  cases hdata : L.hexstrToBytes input.data with
  | error e => exact hraise hs
  | ok data =>
    have hdecoded : Meets (discipline L larger) i (Does L db multisend larger n i)
        (fun r t _ => (Serving i lower t ∧ getDataDecodedWith L multisend (Between L db lower larger) n
          data input.address input.chainId r) ∧
            ∀ d, r = .ok (some d) → selectorOf data ∈ t.1.fnSelectorsWithAbis)
        (getDataDecoded L multisend n data input.address input.chainId) s l :=
      ((getDataDecoded_outcomes hrely (fun s hs => hs.extends_lower) n data input.address
        input.chainId) s l hs).and (getDataDecoded_supported hrely n data input.address input.chainId hs)
    refine hdecoded.bind (fun decoded s l _ hd => ?_) fun e t l _ ht =>
      ⟨ht.1.1.waiting,_,ht.1.1.arrived,.raised e⟩
    obtain ⟨⟨hs,hdecode⟩,hsupported⟩ := hd
    cases decoded with
    | none =>
      exact Meets.ret fun t ht _ => ⟨(hs.rely ht).waiting,_,(hs.rely ht).arrived,.notFound hdata hdecode⟩
    | some d =>
      refine (getDecodingAccuracy_meets hrely hs (hsupported d rfl) input.address input.chainId).bind
        (fun accuracy s l _ ha => ?_) fun e t l _ ht => ⟨ht.1.waiting,_,ht.1.arrived,.raised e⟩
      refine Meets.ret fun t ht _ => ⟨(ha.1.rely ht).waiting,_,(ha.1.rely ht).arrived,?_⟩
      refine .found hdata hdecode fun h => ha.2 ?_
      rw [h]

end Answers

section Runs
variable {s₀ : Backend} {c d : Config Command Command.Answer PyError Backend Unit (DataDecoderInput L)
    (Option (DataDecoded × DecodingAccuracy))}
  {tr tr' : List (Backend × Event Command Command.Answer PyError (Move L))}

/-- The service has been built, and nobody loads ABIs. -/
structure Starts (L : Externals) (s : Backend) : Prop where
  valid : IndexValid L s.fnSelectorsWithAbis
  free : s.lockLoadNewAbis = false

theorem Moves.extends {mv : Move L} {s t : Backend} {labels : List (DataDecoderInput L)}
    (h : Moves L mv s t labels) : Extends s.fnSelectorsWithAbis t.fnSelectorsWithAbis := by
  cases h with
  | rows abis => exact .refl _
  | arrive input => exact .refl _

theorem run_extends (h : (endpoint L db multisend n).Run c tr d) :
    Extends c.state.fnSelectorsWithAbis d.state.fnSelectorsWithAbis := by
  induction h with
  | refl => exact .refl _
  | step _ hstep ih =>
    cases hstep with
    | own hi he => exact ih.trans he.extends
    | env hm => exact ih.trans hm.extends

/-- What arrives later finds the index of now, or a larger one. -/
theorem arrivals_later (h : (endpoint L db multisend n).Run c tr d) {g : Ghost} {k : ℕ}
    (hk : g.arrivals.length ≤ k) (hlower : (Machine.observe watch g tr).arrivals[k]? = some lower) :
    Extends c.state.fnSelectorsWithAbis lower := by
  induction h with
  | refl =>
    rw [Machine.observe_nil, List.getElem?_eq_none hk] at hlower
    cases hlower
  | @step d d' tr e hrun hstep ih =>
    rw [Machine.observe_append] at hlower
    cases hstep with
    | @own j label l l' cmd next r s' hi he =>
      have hsame : (watch (Machine.observe watch g tr) d.state
          (.own j cmd r : Event Command Command.Answer PyError (Move L))).arrivals =
            (Machine.observe watch g tr).arrivals := by
        cases cmd <;> cases r <;> rfl
      rw [hsame] at hlower
      exact ih hlower
    | env hm =>
      cases hm with
      | rows abis => exact ih hlower
      | arrive input =>
        change ((Machine.observe watch g tr).arrivals ++ [d.state.fnSelectorsWithAbis])[k]? = some lower
          at hlower
        rw [List.getElem?_append] at hlower
        split at hlower
        · exact ih hlower
        · rw [List.mem_singleton.mp (List.mem_of_getElem? hlower)]
          exact run_extends hrun

/-- Every run keeps the discipline, below any index that its own is a part of. -/
theorem run_sound (hs : Starts L s₀)
    (h : (endpoint L db multisend n).Run ((endpoint L db multisend n).initial s₀ []) tr c)
    (hlarger : Extends c.state.fnSelectorsWithAbis larger) :
    (bounded L db multisend larger n).Sound watch (discipline L larger) sized
      (fun i input r t _ => t.2.holder ≠ some i ∧ ∃ lower, t.2.arrivals[i]? = some lower ∧
        Answered L db multisend n lower larger input r) c (Machine.observe watch .start tr) := by
  have hrun : (bounded L db multisend larger n).Run ((endpoint L db multisend n).initial s₀ []) tr c :=
    h.confine hlarger (fun he hs' => he.extends.trans hs') fun hm hs' => hm.extends.trans hs'
  refine hrun.sound (bounded_admits fun i lower s l input hs => dataDecoder_meets hs input)
    (Machine.sound_initial ⟨hs.free,fun k hk => ?_,hs.valid,(run_extends h).trans hlarger,id⟩ rfl ?_)
  · cases hk
  · intro i label hlabel
    cases hlabel

/-- What only a reload may do: change the index or the cursor, or release the lock. -/
def Protected (s t : Backend) : Prop :=
  t.fnSelectorsWithAbis ≠ s.fnSelectorsWithAbis ∨ t.lastAbiId ≠ s.lastAbiId ∨
    s.lockLoadNewAbis = true ∧ t.lockLoadNewAbis = false

/-- The lock is taken by a request that is not through yet, and only that request
changes the index or the cursor or releases the lock. -/
theorem lock_exclusive (hs : Starts L s₀)
    (h : (endpoint L db multisend n).Run ((endpoint L db multisend n).initial s₀ []) tr c) :
    c.state.lockLoadNewAbis = (Machine.observe watch .start tr).holder.isSome ∧
    (∀ i, (Machine.observe watch .start tr).holder = some i →
      ∃ th, c.threads[i]? = some th ∧ th.prog.outcome? = none) ∧
    ∀ e c', (endpoint L db multisend n).Step c e c' → Protected c.state c'.state →
      ∃ i cmd r, e = .own i cmd r ∧ (Machine.observe watch .start tr).holder = some i := by
  have hsound := run_sound hs h (.refl _)
  refine ⟨hsound.inv.locked,fun i hi => ?_,fun e c' hstep hchange => ?_⟩
  · have hlt := hsound.inv.known i hi
    rw [hsound.size] at hlt
    refine ⟨c.threads[i],List.getElem?_eq_getElem hlt,?_⟩
    by_contra hend
    obtain ⟨r,hr⟩ := Option.ne_none_iff_exists'.mp hend
    exact (hsound.outcome (List.getElem?_eq_getElem hlt) hr).1 hi
  · have hbefore := run_sound hs h (run_extends (.step .refl hstep))
    have hafter := run_sound hs (.step h hstep) (.refl _)
    rw [Machine.observe_append] at hafter
    cases hstep with
    | @own i label l l' cmd next r s' hi he =>
      refine ⟨i,cmd,r,rfl,?_⟩
      by_contra hholder
      have hguar : Guar i _ _ := hbefore.guar hi ⟨he,.refl _⟩
      rcases hchange with hindex | hlast | ⟨hheld,hfree⟩
      · exact hindex (hguar.kept hholder).1
      · exact hlast (hguar.kept hholder).2
      · -- somebody else would hold the lock before the step and after it
        have hlocked := hbefore.inv.locked
        rw [hheld] at hlocked
        obtain ⟨j,hj⟩ := Option.isSome_iff_exists.mp hlocked.symm
        have hj' := (hguar.holds j fun hji => hholder (hji ▸ hj)).mp hj
        have hlocked' := hafter.inv.locked
        rw [hfree, hj'] at hlocked'
        cases hlocked'
    | env hm =>
      have hsame : ¬Protected c.state c.state := by simp [Protected]
      cases hm with
      | rows abis => exact absurd hchange hsame
      | arrive input => exact absurd hchange hsame

theorem missed_of_mem {g : Ghost} {s : Backend} {i : ℕ} {k : Bytes} {e : PyError}
    (h : (s,Event.own i (.getItem k) (.error e)) ∈ tr) : (Machine.observe watch g tr).missed := by
  have hkept : ∀ (tr : List (Backend × Event Command Command.Answer PyError (Move L))) (g : Ghost),
      g.missed → (Machine.observe watch g tr).missed := by
    intro tr
    induction tr with
    | nil => exact fun g hg => hg
    | cons x tr ih =>
      intro g hg
      apply ih
      obtain ⟨s,e⟩ := x
      cases e with
      | own i cmd r => cases cmd <;> cases r <;> first | exact hg | trivial
      | env mv => cases mv <;> exact hg
  induction tr generalizing g with
  | nil => cases h
  | cons x tr ih =>
    rcases List.mem_cons.mp h with rfl | h
    · exact hkept tr _ trivial
    · exact ih h

/-- The second use of the index never raises, and what has been decoded has an accuracy. -/
theorem supported_stays_supported (hs : Starts L s₀)
    (h : (endpoint L db multisend n).Run ((endpoint L db multisend n).initial s₀ []) tr c) :
    (∀ s i k r, (s,Event.own i (.getItem k) r) ∈ tr → ∃ f, r = .ok f) ∧
    ∀ (i : ℕ) th e accuracy, c.threads[i]? = some th →
      th.prog.outcome? = some (.ok (some (e,accuracy))) → accuracy ≠ .noMatch := by
  have hsound := run_sound hs h (.refl _)
  refine ⟨fun s i k r hmem => ?_,fun i th e accuracy hi hend => ?_⟩
  · cases r with
    | ok f => exact ⟨f,rfl⟩
    | error e => exact absurd (missed_of_mem hmem) hsound.inv.missed
  · obtain ⟨_,_,_,hanswer⟩ := hsound.outcome hi hend
    cases hanswer with
    | found _ _ haccuracy => exact haccuracy

end Runs

section Pausing
open Reference Accuracy

/-- One answer to every command; the whole table is never streamed. -/
def answer (s : Backend) (l : Unit) : (c : Command) → Except PyError c.Answer × Backend × Unit
  | .acquire =>
    if s.lockLoadNewAbis then (.error .timeoutError,s,l)
    else (.ok (),{ s with lockLoadNewAbis := true },l)
  | .release =>
    if s.lockLoadNewAbis then (.ok (),{ s with lockLoadNewAbis := false },l)
    else (.error (.other "RuntimeError"),s,l)
  | .lastAbiId => (.ok s.lastAbiId,s,l)
  | .setLastAbiId last => (.ok (),{ s with lastAbiId := last },l)
  | .lastInsertedId => (.ok (getLastInsertedId s.abis),s,l)
  | .sortedByRelevance => (.error .cancelledError,s,l)
  | .idGreaterThan last => (.ok ((getAbisWithIdGreaterThan s.abis last).map AbiRow.abiJson),s,l)
  | .nextRow => (.ok (),s,l)
  | .generateSelectors => (.ok (),s,l)
  | .addSelectors items => (.ok (addSelectors s.fnSelectorsWithAbis items).2,
      { s with fnSelectorsWithAbis := (addSelectors s.fnSelectorsWithAbis items).1 },l)
  | .contains k => (.ok (decide (k ∈ s.fnSelectorsWithAbis)),s,l)
  | .getItem k =>
    match s.fnSelectorsWithAbis.lookup k with
    | some f => (.ok f,s,l)
    | none => (.error .keyError,s,l)
  | .contractAbi address chainId => (queryContractAbi packages noRows address chainId,s,l)

theorem answer_exec (s : Backend) (l : Unit) (c : Command) :
    Exec packages noRows s l c (answer s l c).1 (answer s l c).2.1 (answer s l c).2.2 := by
  cases c with
  | acquire =>
    cases hs : s.lockLoadNewAbis with
    | true =>
      simp only [answer, hs, if_true]
      exact .failed rfl ⟨rfl,rfl⟩
    | false =>
      simp only [answer, hs]
      exact .acquire hs
  | release =>
    cases hs : s.lockLoadNewAbis with
    | true =>
      simp only [answer, hs, if_true]
      exact .release hs
    | false =>
      simp only [answer, hs]
      exact .notAcquired hs
  | getItem k =>
    cases hk : s.fnSelectorsWithAbis.lookup k with
    | some f =>
      simp only [answer, hk]
      exact .getItem hk
    | none =>
      simp only [answer, hk]
      exact .missing (AList.lookup_eq_none.mp hk)
  | lastAbiId => exact .lastAbiId
  | setLastAbiId last => exact .setLastAbiId last
  | lastInsertedId => exact .lastInsertedId
  | sortedByRelevance => exact .failed rfl ⟨rfl,rfl⟩
  | idGreaterThan last => exact .idGreaterThan last
  | nextRow => exact .nextRow
  | generateSelectors => exact .generateSelectors
  | addSelectors items => exact .addSelectors items
  | contains k => exact .contains k
  | contractAbi address chainId => exact .contractAbi rfl

abbrev pausing := endpoint packages noRows batchService.multisendFnSelectorsWithAbis 5

def player : pausing.Player where
  respond := answer
  move := fun
    | .rows abis, s => some ({ s with abis := abis },[])
    | .arrive input, s => some (s,[input])
  respond_exec := answer_exec
  move_move := by
    intro mv s s' labels h
    cases mv with
    | rows abis =>
      cases h
      exact .rows abis
    | arrive input =>
      cases h
      exact .arrive input

/-- The service knows `pause`. -/
def pausable : Backend :=
  ⟨[⟨1,0,.arr [pauseFunction],1⟩],selectors packages (.arr [pauseFunction]),some 1,false⟩

/-- A request is answered. -/
def asked := (Machine.play player (pausing.initial pausable [])
  (.inr (.arrive pauseRequest) :: List.replicate 12 (.inl 0)))

/-- `unpause` is stored, and the same request is answered again. -/
def askedAgain := (Machine.play player asked.2 (.inr (.rows [⟨1,0,.arr [pauseFunction],1⟩,
  ⟨2,0,.arr [unpauseFunction],1⟩]) :: .inr (.arrive pauseRequest) :: List.replicate 18 (.inl 1)))

theorem asked_run : pausing.Run (pausing.initial pausable []) asked.1 asked.2 := by
  unfold asked
  exact Machine.play_run player _ _

theorem askedAgain_run : pausing.Run asked.2 askedAgain.1 askedAgain.2 := by
  unfold askedAgain
  exact Machine.play_run player _ _

def paused : Thread Command Command.Answer PyError Unit (DataDecoderInput packages)
    (Option (DataDecoded × DecodingAccuracy)) :=
  ⟨pauseRequest,(),.ret (some (⟨.str "pause",[]⟩,.onlyFunctionMatch))⟩

set_option maxRecDepth 20000 in
theorem asked_threads : asked.2.threads = [paused] := rfl

set_option maxRecDepth 20000 in
theorem askedAgain_threads : askedAgain.2.threads = [paused,paused] := rfl

set_option maxRecDepth 20000 in
theorem askedAgain_index : askedAgain.2.state.fnSelectorsWithAbis.items =
    [([0x3f, 0x4b, 0xa8, 0x3a],unpauseFunction), ([0x84, 0x56, 0xcb, 0x59],pauseFunction)] := rfl

/-- Neither of the two functions holds further calls. -/
theorem resolvable_askedAgain {k : Bytes} {f : Json} (h : Resolvable packages noRows
    askedAgain.2.state.fnSelectorsWithAbis (some 1) k f) :
    k = [0x3f, 0x4b, 0xa8, 0x3a] ∧ f = unpauseFunction ∨
      k = [0x84, 0x56, 0xcb, 0x59] ∧ f = pauseFunction := by
  obtain ⟨data,address,_,rfl,hf⟩ := h
  have hin : (selectorOf data,f) ∈ askedAgain.2.state.fnSelectorsWithAbis.items :=
    List.mem_map.mpr ⟨⟨selectorOf data,f⟩,AList.mem_lookup_iff.mp (resolve_noRows hf),rfl⟩
  rw [askedAgain_index] at hin
  rcases List.mem_pair.mp hin with h | h
  · exact .inl (Prod.mk.inj h)
  · exact .inr (Prod.mk.inj h)

theorem not_multisend_askedAgain {k : Bytes} (hk : k ∈ batchService.multisendFnSelectorsWithAbis)
    {f : Json} : ¬ Resolvable packages noRows askedAgain.2.state.fnSelectorsWithAbis (some 1) k f := by
  have hkeys : batchService.multisendFnSelectorsWithAbis.keys = [[0x8d, 0x80, 0xff, 0x0a]] := rfl
  rw [AList.mem_keys, hkeys] at hk
  intro hres
  rcases resolvable_askedAgain hres with ⟨rfl,_⟩ | ⟨rfl,_⟩
  · cases List.mem_singleton.mp hk
  · cases List.mem_singleton.mp hk

theorem conditions_askedAgain : Conditions codec noRows askedAgain.2.state.fnSelectorsWithAbis
    batchService.multisendFnSelectorsWithAbis (some 1) where
  chainFits := by
    rintro _ c hc
    cases hc
    rfl
  loadable := by
    intro _ a k b abi _ _ _ hfound
    exact absurd hfound foundAbi_noRows
  usable := by
    intro k f hres
    rcases resolvable_askedAgain hres with ⟨_,rfl⟩ | ⟨_,rfl⟩
    · exact ⟨fun e he => (by cases he),fun _ _ _ _ _ => ⟨_,rfl⟩⟩
    · exact ⟨fun e he => (by cases he),fun _ _ _ _ _ => ⟨_,rfl⟩⟩
  batchArgument := fun k hk f hres => absurd hres (not_multisend_askedAgain hk)
  batchReadable := fun k hk f hres => absurd hres (not_multisend_askedAgain hk)
  innerCall := by
    intro f hres
    rcases resolvable_askedAgain hres with ⟨h,_⟩ | ⟨h,_⟩ <;> cases h
  stable := by
    intro f hres
    rcases resolvable_askedAgain hres with ⟨h,_⟩ | ⟨h,_⟩ <;> cases h

theorem starts_pausable : Starts packages pausable := by
  refine ⟨fun k f hf => ?_,rfl⟩
  exact ⟨(selectors_lookup hf).1,(selectors_lookup hf).2.1⟩

/-- `unpause` is stored, and of two requests one reloads while the other does without. -/
def contended := Machine.play player (pausing.initial pausable [])
  ([.inr (.rows [⟨1,0,.arr [pauseFunction],1⟩, ⟨2,0,.arr [unpauseFunction],1⟩]),
    .inr (.arrive pauseRequest), .inr (.arrive pauseRequest), .inl 0, .inl 0, .inl 0, .inl 0, .inl 0] ++
    List.replicate 4 (.inl 1) ++ [.inl 0, .inl 0])

set_option maxRecDepth 20000 in
theorem contended_holder : (Machine.observe watch .start contended.1).holder = some 0 := rfl

/-- The first request is about to change the index, and nobody else could. -/
theorem lock_exclusive_contended :
    contended.2.state.lockLoadNewAbis = true ∧
      (∃ th, contended.2.threads[0]? = some th ∧ th.prog.outcome? = none) ∧
      ∀ e c', pausing.Step contended.2 e c' → Protected contended.2.state c'.state →
        ∃ cmd r, e = .own 0 cmd r := by
  have hrun : pausing.Run (pausing.initial pausable []) contended.1 contended.2 := by
    unfold contended
    exact Machine.play_run player _ _
  obtain ⟨hlock,hholder,hchange⟩ := lock_exclusive starts_pausable hrun
  rw [contended_holder] at hlock hholder hchange
  refine ⟨hlock,hholder 0 rfl,fun e c' hstep hprotected => ?_⟩
  obtain ⟨i,cmd,r,rfl,hi⟩ := hchange e c' hstep hprotected
  cases hi
  exact ⟨cmd,r,rfl⟩

/-- `self.fn_selectors_with_abis[selector]` -/
def subscripts : Event Command Command.Answer PyError (Move packages) → Bool
  | .own _ (.getItem _) _ => true
  | _ => false

/-- Both requests subscript the index, and it has grown in between. -/
theorem supported_stays_supported_askedAgain :
    ((asked.1 ++ askedAgain.1).countP fun e => subscripts e.2) = 2 ∧
      (∀ s i k r, (s,Event.own i (.getItem k) r) ∈ asked.1 ++ askedAgain.1 → ∃ f, r = .ok f) ∧
      ∀ (i : ℕ) th e accuracy, askedAgain.2.threads[i]? = some th →
        th.prog.outcome? = some (.ok (some (e,accuracy))) → accuracy ≠ .noMatch :=
  ⟨by decide +kernel,supported_stays_supported starts_pausable (asked_run.trans askedAgain_run)⟩

end Pausing
end SafeDecoder.Requests
