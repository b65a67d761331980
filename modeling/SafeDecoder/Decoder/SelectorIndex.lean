import SafeDecoder.Data.Externals
import SafeDecoder.Library.Dictionary
import SafeDecoder.Library.Effects

/-! # Selector maps of ABIs

`generateSelectorsWithAbisFromAbi` reads the functions of one document and
`generateSelectorsWithAbisFromAbis` merges a stream of documents, both raising
where the service raises. A document is loadable when the first does not raise;
the map it then gives is `selectors`, and the merged maps are folds of it.
-/
namespace SafeDecoder.SelectorIndex
open Effects
variable (L : Externals)

/-- `[fn_abi for fn_abi in abi if fn_abi["type"] == "function"]` -/
def functionEntries : List Json → Except PyError (List Json)
  | [] => .ok []
  | entry :: rest => do
    let type ← entry.getItem "type"
    let fnAbis ← functionEntries rest
    return if type.isText "function" then entry :: fnAbis else fnAbis

/-- `{function_abi_to_4byte_selector(fn_abi): fn_abi for fn_abi in fn_abis}` -/
def generateSelectors (fnAbis : List Json) : Except PyError (Dict Bytes Json) := do
  let pairs ← fnAbis.mapM fun fnAbi => do
    let selector ← L.functionAbiTo4byteSelector fnAbi
    return (selector,fnAbi)
  return Dict.ofList pairs

def generateSelectorsWithAbisFromAbi (abi : Json) : Except PyError (Dict Bytes Json) := do
  let fnAbis ← functionEntries (← abi.iter)
  if fnAbis.isEmpty then return ∅ else generateSelectors L fnAbis

/-- The comprehension over a stream of ABIs: the last one with a selector has preference. -/
def generateSelectorsWithAbisFromAbis (abis : List Json) : Except PyError (Dict Bytes Json) :=
  abis.foldlM (fun index abi => do
    let fromAbi ← generateSelectorsWithAbisFromAbi L abi
    return index.update fromAbi.items) ∅

/-- The loop of `add_abi` over the selectors of one ABI, with its flag `updated`. -/
def addSelectors (index : Dict Bytes Json) (items : List (Bytes × Json)) : Dict Bytes Json × Bool :=
  items.foldl (fun s p => if p.1 ∈ s.1 then s else (s.1.insert p.1 p.2,true)) (index,false)

/-- The document does not make the selector generation raise. -/
def Loadable (abi : Json) : Prop := ∃ d, generateSelectorsWithAbisFromAbi L abi = .ok d

/-- The selector map of a document, empty when the document is not loadable. -/
def selectors (abi : Json) : Dict Bytes Json :=
  match generateSelectorsWithAbisFromAbi L abi with
  | .ok d => d
  | .error _ => ∅

variable {L}

theorem selectors_of_ok {abi : Json} {d : Dict Bytes Json}
    (h : generateSelectorsWithAbisFromAbi L abi = .ok d) : selectors L abi = d := by
  simp only [selectors, h]

theorem Loadable.generate {abi : Json} (h : Loadable L abi) :
    generateSelectorsWithAbisFromAbi L abi = .ok (selectors L abi) := by
  obtain ⟨d,hd⟩ := h
  rw [selectors_of_ok hd, hd]

theorem generate_of_not_loadable {abi : Json} (h : ¬ Loadable L abi) :
    ∃ e, generateSelectorsWithAbisFromAbi L abi = .error e := by
  cases hg : generateSelectorsWithAbisFromAbi L abi with
  | ok d => exact absurd ⟨d,hg⟩ h
  | error e => exact ⟨e,rfl⟩

theorem addSelectors_fst (index : Dict Bytes Json) (items : List (Bytes × Json)) :
    (addSelectors index items).1 = index.fillMissing items := by
  have hgen : ∀ (items : List (Bytes × Json)) (s : Dict Bytes Json × Bool),
      (items.foldl (fun s p => if p.1 ∈ s.1 then s else (s.1.insert p.1 p.2,true)) s).1 =
        s.1.fillMissing items := by
    intro items
    induction items with
    | nil => exact fun s => rfl
    | cons p rest ih =>
      intro s
      rw [List.foldl_cons, ih]
      change _ = (s.1.setMissing p).fillMissing rest
      by_cases hp : p.1 ∈ s.1 <;> simp [Dict.setMissing, hp]
  exact hgen items (index,false)

theorem foldlM_update_eq_ok {abis : List Json} (index : Dict Bytes Json)
    (h : ∀ abi ∈ abis, Loadable L abi) :
    abis.foldlM (fun index abi => do
      let fromAbi ← generateSelectorsWithAbisFromAbi L abi
      return index.update fromAbi.items) index = .ok (Dict.mergeLast (selectors L) index abis) := by
  induction abis generalizing index with
  | nil => rfl
  | cons abi rest ih =>
    rw [List.foldlM_cons, (h abi (List.mem_cons_self ..)).generate]
    exact ih _ fun a ha => h a (List.mem_cons_of_mem _ ha)

theorem foldlM_update_error {abis : List Json} (index : Dict Bytes Json)
    (h : ∃ abi ∈ abis, ¬ Loadable L abi) :
    ∃ e, abis.foldlM (fun index abi => do
      let fromAbi ← generateSelectorsWithAbisFromAbi L abi
      return index.update fromAbi.items) index = .error e := by
  induction abis generalizing index with
  | nil =>
    obtain ⟨abi,ha,_⟩ := h
    cases ha
  | cons abi rest ih =>
    rw [List.foldlM_cons]
    by_cases hl : Loadable L abi
    · rw [hl.generate]
      apply ih
      obtain ⟨a,ha,hn⟩ := h
      rcases List.mem_cons.mp ha with rfl | ha
      · exact absurd hl hn
      · exact ⟨a,ha,hn⟩
    · obtain ⟨e,he⟩ := generate_of_not_loadable hl
      exact ⟨e,by rw [he]; rfl⟩

/-- Merging a stream succeeds exactly when every document is loadable. -/
theorem generateFromAbis_eq_ok_iff {abis : List Json} {d : Dict Bytes Json} :
    generateSelectorsWithAbisFromAbis L abis = .ok d ↔
      (∀ abi ∈ abis, Loadable L abi) ∧ d = Dict.mergeLast (selectors L) ∅ abis := by
  constructor
  · intro h
    have hall : ∀ abi ∈ abis, Loadable L abi := by
      intro abi ha
      by_contra hn
      obtain ⟨e,he⟩ := foldlM_update_error ∅ ⟨abi,ha,hn⟩
      rw [generateSelectorsWithAbisFromAbis, he] at h
      cases h
    refine ⟨hall,?_⟩
    rw [generateSelectorsWithAbisFromAbis, foldlM_update_eq_ok ∅ hall] at h
    exact (Except.ok.inj h).symm
  · rintro ⟨hall,rfl⟩
    exact foldlM_update_eq_ok ∅ hall

section Entries

/-- The entries whose type is the text "function". -/
def isFunctionEntry (entry : Json) : Bool :=
  match entry.getItem "type" with
  | .ok type => type.isText "function"
  | .error _ => false

theorem functionEntries_eq_ok_iff {entries fnAbis : List Json} :
    functionEntries entries = .ok fnAbis ↔
      (∀ e ∈ entries, ∃ t, e.getItem "type" = .ok t) ∧ fnAbis = entries.filter isFunctionEntry := by
  induction entries generalizing fnAbis with
  | nil => simp [functionEntries, eq_comm]
  | cons e rest ih =>
    rw [functionEntries, bind_eq_ok_iff, List.forall_mem_cons, List.filter_cons]
    constructor
    · rintro ⟨t,ht,h⟩
      obtain ⟨fns,hfns,h⟩ := bind_eq_ok_iff.mp h
      obtain ⟨hall,rfl⟩ := ih.mp hfns
      refine ⟨⟨⟨t,ht⟩,hall⟩,?_⟩
      simp only [isFunctionEntry, ht]
      exact (Except.ok.inj h).symm
    · rintro ⟨⟨⟨t,ht⟩,hall⟩,rfl⟩
      refine ⟨t,ht,bind_eq_ok_iff.mpr ⟨_,ih.mpr ⟨hall,rfl⟩,?_⟩⟩
      simp only [isFunctionEntry, ht]
      rfl

/-- One pair of the comprehension `{selector(fn_abi): fn_abi …}`. -/
theorem selectorPair_eq_ok_iff {f g : Json} {k : Bytes} :
    (do
      let selector ← L.functionAbiTo4byteSelector f
      return (selector,f) : Except PyError (Bytes × Json)) = .ok (k,g) ↔
        L.functionAbiTo4byteSelector f = .ok k ∧ f = g := by
  rw [bind_eq_ok_iff]
  constructor
  · rintro ⟨_,hk,h⟩
    cases h
    exact ⟨hk,rfl⟩
  · rintro ⟨hk,rfl⟩
    exact ⟨k,hk,rfl⟩

theorem exists_generateSelectors {fnAbis : List Json} :
    (∃ d, generateSelectors L fnAbis = .ok d) ↔
      ∀ f ∈ fnAbis, ∃ k, L.functionAbiTo4byteSelector f = .ok k := by
  have hpairs : (∃ d, generateSelectors L fnAbis = .ok d) ↔ ∃ pairs, (fnAbis.mapM fun fnAbi => do
      let selector ← L.functionAbiTo4byteSelector fnAbi
      return (selector,fnAbi)) = .ok pairs := by
    simp only [generateSelectors, bind_eq_ok_iff]
    constructor
    · rintro ⟨_,pairs,hp,_⟩
      exact ⟨pairs,hp⟩
    · rintro ⟨pairs,hp⟩
      exact ⟨_,pairs,hp,rfl⟩
  rw [hpairs, exists_mapM_eq_ok]
  simp only [Prod.exists, selectorPair_eq_ok_iff, exists_eq_right']

/-- An entry of the map is one of the functions, under its own selector. -/
theorem generateSelectors_lookup {fnAbis : List Json} {d : Dict Bytes Json}
    (h : generateSelectors L fnAbis = .ok d) {k : Bytes} {f : Json} (hk : d.lookup k = some f) :
    f ∈ fnAbis ∧ L.functionAbiTo4byteSelector f = .ok k := by
  obtain ⟨pairs,hp,h⟩ := bind_eq_ok_iff.mp h
  cases h
  obtain ⟨g,hg,he⟩ := (mem_mapM hp).mp (Dict.mem_of_lookup_ofList hk)
  obtain ⟨hsel,rfl⟩ := selectorPair_eq_ok_iff.mp he
  exact ⟨hg,hsel⟩

theorem generateSelectors_mem {fnAbis : List Json} {d : Dict Bytes Json}
    (h : generateSelectors L fnAbis = .ok d) {f : Json} (hf : f ∈ fnAbis) {k : Bytes}
    (hk : L.functionAbiTo4byteSelector f = .ok k) : k ∈ d := by
  obtain ⟨pairs,hp,h⟩ := bind_eq_ok_iff.mp h
  cases h
  exact Dict.mem_ofList.mpr
    ⟨(k,f),(mem_mapM hp).mpr ⟨f,hf,selectorPair_eq_ok_iff.mpr ⟨hk,rfl⟩⟩,rfl⟩

/-- What it takes for a document to be read: a type on every entry, a selector
for every function. -/
theorem generate_eq_ok_iff {abi : Json} {d : Dict Bytes Json} :
    generateSelectorsWithAbisFromAbi L abi = .ok d ↔
      ∃ entries, abi.iter = .ok entries ∧ (∀ e ∈ entries, ∃ t, e.getItem "type" = .ok t) ∧
        generateSelectors L (entries.filter isFunctionEntry) = .ok d := by
  rw [generateSelectorsWithAbisFromAbi, bind_eq_ok_iff]
  simp only [bind_eq_ok_iff, functionEntries_eq_ok_iff]
  have hempty : ∀ fnAbis : List Json,
      (if fnAbis.isEmpty then pure ∅ else generateSelectors L fnAbis : Except PyError _) =
        generateSelectors L fnAbis := by
    intro fnAbis
    cases fnAbis with
    | nil => rfl
    | cons f rest => rfl
  constructor
  · rintro ⟨entries,he,fnAbis,⟨hall,rfl⟩,h⟩
    exact ⟨entries,he,hall,(hempty _).symm.trans h⟩
  · rintro ⟨entries,he,hall,h⟩
    exact ⟨entries,he,_,⟨hall,rfl⟩,(hempty _).trans h⟩

theorem loadable_iff {abi : Json} :
    Loadable L abi ↔ ∃ entries, abi.iter = .ok entries ∧
      (∀ e ∈ entries, ∃ t, e.getItem "type" = .ok t) ∧
      ∀ e ∈ entries, isFunctionEntry e → ∃ k, L.functionAbiTo4byteSelector e = .ok k := by
  simp only [Loadable, generate_eq_ok_iff]
  constructor
  · rintro ⟨d,entries,he,hall,hd⟩
    refine ⟨entries,he,hall,?_⟩
    intro e hm hf
    exact exists_generateSelectors.mp ⟨d,hd⟩ e (List.mem_filter.mpr ⟨hm,hf⟩)
  · rintro ⟨entries,he,hall,hsel⟩
    obtain ⟨d,hd⟩ := exists_generateSelectors.mpr fun e hm =>
      hsel e (List.mem_filter.mp hm).1 (List.mem_filter.mp hm).2
    exact ⟨d,entries,he,hall,hd⟩

/-- Every entry of the map of a document is a function of it with that selector. -/
theorem selectors_lookup {abi : Json} {k : Bytes} {f : Json}
    (h : (selectors L abi).lookup k = some f) :
    isFunctionEntry f ∧ L.functionAbiTo4byteSelector f = .ok k ∧
      ∃ entries, abi.iter = .ok entries ∧ f ∈ entries := by
  cases hg : generateSelectorsWithAbisFromAbi L abi with
  | error e =>
    simp only [selectors, hg] at h
    cases h
  | ok d =>
    rw [selectors_of_ok hg] at h
    obtain ⟨entries,he,_,hd⟩ := generate_eq_ok_iff.mp hg
    obtain ⟨hm,hk⟩ := generateSelectors_lookup hd h
    obtain ⟨hm,hf⟩ := List.mem_filter.mp hm
    exact ⟨hf,hk,entries,he,hm⟩

/-- A document with a function is neither empty nor malformed. -/
theorem of_mem_selectors {abi : Json} {k : Bytes} (h : k ∈ selectors L abi) :
    abi.truthy ∧ Loadable L abi := by
  constructor
  · obtain ⟨f,hf⟩ := Option.isSome_iff_exists.mp (AList.lookup_isSome.mpr h)
    obtain ⟨_,_,entries,he,hm⟩ := selectors_lookup hf
    exact Json.truthy_of_iter he hm
  · by_contra hn
    obtain ⟨e,he⟩ := generate_of_not_loadable hn
    simp only [selectors, he] at h
    exact AList.notMem_empty k h

/-- Every function of a loadable document is registered. -/
theorem Loadable.mem_selectors {abi : Json} (h : Loadable L abi) {entries : List Json}
    (he : abi.iter = .ok entries) {f : Json} (hf : f ∈ entries) (hfn : isFunctionEntry f) {k : Bytes}
    (hk : L.functionAbiTo4byteSelector f = .ok k) : k ∈ selectors L abi := by
  obtain ⟨entries',he',_,hd⟩ := generate_eq_ok_iff.mp h.generate
  rw [he] at he'
  cases he'
  exact generateSelectors_mem hd (List.mem_filter.mpr ⟨hf,hfn⟩) hk

end Entries
end SafeDecoder.SelectorIndex
