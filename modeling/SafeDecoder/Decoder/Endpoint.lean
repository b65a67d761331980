import SafeDecoder.Data.Digits
import SafeDecoder.Decoder.Reload

/-! # The data-decoder endpoint and the sessions of one service

A request loads new ABIs, decodes and then asks for the accuracy. Another
process writes the tables, so a session interleaves these calls with changes of
the database.
-/
namespace SafeDecoder
open Effects SelectorIndex

/-- `^0x[0-9a-fA-F]*$` -/
def isHexText (s : String) : Bool :=
  match s.toList with
  | '0' :: 'x' :: digits => digits.all isHexDigit
  | _ => false

theorem isHexText_to0xHexStr (b : Bytes) : isHexText (to0xHexStr b) := by
  have hdigit : ∀ n < 16, isHexDigit (hexDigit n) = true := by decide
  rw [isHexText, toList_to0xHexStr]
  apply List.all_eq_true.mpr
  intro c hc
  obtain ⟨n,hn,rfl⟩ := mem_hexDigits hc
  exact hdigit n hn

/-- The body of a request, as its validators leave it. -/
structure DataDecoderInput (L : Externals) where
  data : String
  toAddress : Option String
  chainId : Option Int
  dataPattern : isHexText data
  toPattern : ∀ a, toAddress = some a → isHexText a ∧ a.length = 42
  checksummed : ∀ a, toAddress = some a → L.fastToChecksumAddress (.str a) = .ok (.str a)
  positiveChain : ∀ c, chainId = some c → 0 < c

namespace DataDecoderInput
variable {L : Externals} (input : DataDecoderInput L)

def address : Option PyVal := input.toAddress.map PyVal.str

theorem truthy_address {a : String} (h : input.toAddress = some a) : PyVal.truthy (.str a) := by
  have hlen := (input.toPattern a h).2
  rw [PyVal.truthy, decide_eq_true_eq]
  rintro rfl
  exact absurd hlen (by decide)

end DataDecoderInput

section Request
variable (L : Externals) {C : Caches} (db : Db)

/-- The endpoint `data_decoder`; `none` is the answer 404. -/
def dataDecoder (failure : Option Failure) (q : AbiQueries) (n : ℕ) (input : DataDecoderInput L) :
    Py C (Option (DataDecoded × DecodingAccuracy)) := do
  let _ ← loadNewAbis L failure q
  let data ← fromExcept (L.hexstrToBytes input.data)
  let decoded ← getDataDecoded L db n data input.address input.chainId
  match decoded with
  | none => return none
  | some decoded => do
    let accuracy ← getDecodingAccuracy L db data input.address input.chainId
    return some (decoded,accuracy)

/-- What an answered request ran, in order. -/
theorem dataDecoder_eq_ok {L : Externals} {db : Db} {failure : Option Failure} {q : AbiQueries}
    {n : ℕ} {input : DataDecoderInput L} {s t : Service C} {d : DataDecoded}
    {accuracy : DecodingAccuracy}
    (h : dataDecoder L db failure q n input s = .ok (some (d,accuracy)) t) :
    ∃ data u, L.hexstrToBytes input.data = .ok data ∧
      getDataDecoded L db n data input.address input.chainId
        (finalState (loadNewAbis L failure q s)) = .ok (some d) u ∧
      getDecodingAccuracy L db data input.address input.chainId u = .ok accuracy t := by
  obtain ⟨loaded,s₁,hload,h⟩ := run_bind_eq_ok h
  obtain ⟨data,s₂,hrun,hrest⟩ := run_bind_eq_ok h
  obtain ⟨hdata,hs⟩ := run_fromExcept_eq_ok hrun
  subst hs
  obtain ⟨decoded,u,hdecoded,h⟩ := run_bind_eq_ok hrest
  cases decoded with
  | none => cases h
  | some d' =>
    obtain ⟨r,v,hr,h⟩ := run_bind_eq_ok h
    cases h
    rw [finalState_of_ok hload]
    exact ⟨data,u,hdata,hdecoded,hr⟩

end Request

/-- What a session may do: the reloads and the changes of the database it admits. -/
structure Rules (L : Externals) (C : Caches) where
  loads : Option Failure → AbiQueries → Service C → Prop
  changes : Db → Db → Service C → Prop

def Rules.any (L : Externals) (C : Caches) : Rules L C := ⟨fun _ _ _ => True,fun _ _ _ => True⟩

/-- One call of the service, or a change of the database by another process. -/
inductive SessionStep {L : Externals} {C : Caches} (rules : Rules L C) :
    Db × Service C → Db × Service C → Prop
  | load {db : Db} {s : Service C} {failure : Option Failure} {order : List AbiRow}
      (sorted : IsRelevanceOrder db.abis order)
      (ok : rules.loads failure (AbiQueries.ofTable db.abis order) s) :
      SessionStep rules (db,s)
        (db,finalState (loadNewAbis L failure (AbiQueries.ofTable db.abis order) s))
  | decode {db : Db} {s : Service C} (n : ℕ) (data : Bytes) (address : Option PyVal)
      (chainId : Option Int) :
      SessionStep rules (db,s) (db,finalState (getDataDecoded L db n data address chainId s))
  | accuracy {db : Db} {s : Service C} (data : Bytes) (address : Option PyVal)
      (chainId : Option Int) :
      SessionStep rules (db,s) (db,finalState (getDecodingAccuracy L db data address chainId s))
  | change {db db' : Db} {s : Service C} (ok : rules.changes db db' s) :
      SessionStep rules (db,s) (db',s)

/-- Sessions of a service, from its start on the tables of that moment. -/
inductive Session {L : Externals} {C : Caches} (rules : Rules L C) : Db × Service C → Prop
  | init {db : Db} {order : List AbiRow} {s : Service C} (sorted : IsRelevanceOrder db.abis order)
      (started : init L (getLastInsertedId db.abis) (order.map AbiRow.abiJson) = .ok s) :
      Session rules (db,s)
  | step {w w' : Db × Service C} (session : Session rules w) (step : SessionStep rules w w') :
      Session rules w'

section Index
variable {L : Externals} {C : Caches}

/-- Every entry of the index is a function under its own selector. -/
def IndexValid (L : Externals) (index : Dict Bytes Json) : Prop :=
  ∀ k f, index.lookup k = some f → isFunctionEntry f ∧ L.functionAbiTo4byteSelector f = .ok k

theorem indexValid_init {last : Option ℕ} {abis : List Json} {s : Service C}
    (h : init L last abis = .ok s) : IndexValid L s.fnSelectorsWithAbis := by
  obtain ⟨_,_,rfl⟩ := init_eq_ok_iff.mp h
  intro k f hf
  change (Dict.mergeLast (selectors L) ∅ abis).lookup k = some f at hf
  rw [Dict.lookup_mergeLast, AList.lookup_empty, Option.or_none] at hf
  obtain ⟨_,abi,_,_,habi,_⟩ := List.findSome?_eq_some_iff.mp hf
  exact ⟨(selectors_lookup habi).1,(selectors_lookup habi).2.1⟩

theorem indexValid_mergeFirst {index : Dict Bytes Json} (h : IndexValid L index) (abis : List Json) :
    IndexValid L (Dict.mergeFirst (selectors L) index abis) := by
  intro k f hf
  rw [Dict.lookup_mergeFirst] at hf
  cases hk : index.lookup k with
  | some g =>
    rw [hk, Option.some_or] at hf
    exact h k f (hk.trans hf)
  | none =>
    rw [hk, Option.none_or] at hf
    obtain ⟨_,abi,_,_,habi,_⟩ := List.findSome?_eq_some_iff.mp hf
    exact ⟨(selectors_lookup habi).1,(selectors_lookup habi).2.1⟩

/-- A reload changes the index and the cursor only, and the index stays valid. -/
theorem loadNewAbis_keeps (failure : Option Failure) (q : AbiQueries) {s : Service C}
    (hlock : s.lockLoadNewAbis = false) :
    let t := finalState (loadNewAbis L failure q s)
    t.lockLoadNewAbis = false ∧ t.contractAbi = s.contractAbi ∧
      t.contractAbiSelectors = s.contractAbiSelectors ∧
      t.multisendFnSelectorsWithAbis = s.multisendFnSelectorsWithAbis ∧
      (IndexValid L s.fnSelectorsWithAbis → IndexValid L t.fnSelectorsWithAbis) := by
  dsimp only
  rw [loadNewAbis_finalState q hlock]
  split
  · exact ⟨hlock,rfl,rfl,rfl,id⟩
  · exact ⟨hlock,rfl,rfl,rfl,fun h => indexValid_mergeFirst h _⟩

end Index

section Sessions
variable {L : Externals} {C : Caches} {rules : Rules L C}

/-- Between requests the lock is free, and every entry of the index is a function. -/
structure Service.Ready (L : Externals) (s : Service C) : Prop where
  lock : s.lockLoadNewAbis = false
  index : IndexValid L s.fnSelectorsWithAbis

theorem Service.Ready.load {s : Service C} (h : s.Ready L) (failure : Option Failure)
    (q : AbiQueries) : (finalState (loadNewAbis L failure q s)).Ready L := by
  obtain ⟨hlock,_,_,_,hindex⟩ := loadNewAbis_keeps failure q h.lock
  exact ⟨hlock,hindex h.index⟩

theorem Service.Ready.steady {db : Db} {P : AddressKey → Prop} {s t : Service C} (h : s.Ready L)
    (ht : Service.Steady L db P s t) : t.Ready L :=
  ⟨ht.lock.trans h.lock,ht.index ▸ h.index⟩

theorem SessionStep.ready {w w' : Db × Service C} (step : SessionStep rules w w')
    (h : w.2.Ready L) : w'.2.Ready L := by
  cases step with
  | load sorted ok => exact h.load _ _
  | decode n data address chainId =>
    exact h.steady (getDataDecoded_steady n data address chainId _)
  | accuracy data address chainId =>
    exact h.steady (getDecodingAccuracy_steady data address chainId _)
  | change ok => exact h

theorem Session.ready {w : Db × Service C} (h : Session rules w) : w.2.Ready L := by
  induction h with
  | init sorted started =>
    refine ⟨?_,indexValid_init started⟩
    obtain ⟨_,_,rfl⟩ := init_eq_ok_iff.mp started
    rfl
  | step _ hstep ih => exact hstep.ready ih

/-- A request whose decoding and accuracy the tables give is answered with them. -/
theorem dataDecoder_of_tables {db : Db} {s : Service C} {failure : Option Failure} {q : AbiQueries}
    {n : ℕ} {input : DataDecoderInput L} {data : Bytes} {d : DataDecoded} {r : DecodingAccuracy}
    (hlock : s.lockLoadNewAbis = false) (hs : s.Coherent L db fun _ => True)
    {loaded : ℕ} {s₁ : Service C} (hload : loadNewAbis L failure q s = .ok loaded s₁)
    (hdata : L.hexstrToBytes input.data = .ok data)
    (hd : decodedFromTables L db s₁.multisendFnSelectorsWithAbis s₁.fnSelectorsWithAbis n data
      input.address input.chainId = .ok (some d))
    (hr : accuracy L db s₁.fnSelectorsWithAbis data input.address input.chainId = .ok r) :
    ∃ t, dataDecoder L db failure q n input s = .ok (some (d,r)) t := by
  obtain ⟨_,habi,hsel,_,_⟩ := loadNewAbis_keeps (L := L) failure q hlock
  rw [finalState_of_ok hload] at habi hsel
  have hs₁ : s₁.Coherent L db fun _ => True := ⟨habi ▸ hs.abi,hsel ▸ hs.selectors⟩
  have hdecoded : Agrees True (Service.Steady L db (fun _ => True) s₁)
      (getDataDecoded L db n data input.address input.chainId) (.ok (some d)) :=
    hd ▸ getDataDecoded_agrees (fun _ _ => trivial) n data input.address input.chainId
  have haccuracy : Agrees True (Service.Steady L db (fun _ => True) s₁)
      (getDecodingAccuracy L db data input.address input.chainId) (.ok r) :=
    hr ▸ getDecodingAccuracy_agrees (fun _ _ _ _ _ => trivial) data input.chainId
  obtain ⟨u,hu,hdu⟩ := hdecoded.ok trivial hs₁.steady
  obtain ⟨t,_,ht⟩ := haccuracy.ok trivial hu
  refine ⟨t,?_⟩
  rw [dataDecoder, run_bind_ok hload, hdata]
  change (getDataDecoded L db n data input.address input.chainId >>= _) s₁ = _
  rw [run_bind_ok hdu]
  change (getDecodingAccuracy L db data input.address input.chainId >>= _) u = _
  rw [run_bind_ok ht]
  rfl

end Sessions
end SafeDecoder
