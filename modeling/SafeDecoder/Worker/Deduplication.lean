import SafeDecoder.Storage.JsonbReading
import SafeDecoder.Worker.Sequential

/-! # Storing a document twice

`get_or_create_abi` finds the row of an equal document by its hash. Documents with a quotation
mark or a control character in a string have no hash, and cannot be stored at all.
-/
namespace SafeDecoder.Deduplication
open Worker Machine Jsonb

section Database

/-- A document as Python holds it: it is not empty, and an object has no key twice. -/
structure Document where
  json : Json
  nonempty : json.truthy
  distinct : json.all Json.keysDistinct

/-- The database with the generated column `sha256(abi_json::jsonb::text::bytea)`. `accepted`
are the documents that jsonb takes. -/
def postgres (accepted : Json → Bool) (sha256 : Bytes → Bytes) : Postgres where
  abiHash := fun j => sha256 ((hashInput j).getD [])
  acceptsJson := fun j => accepted j && (hashInput j).isSome

/-- `Abi.get_abi` -/
def getAbi (abiJson : Json) : Worker.Task (Option AbiRow) := issue (.selectAbi abiJson)

/-- The task runs to its end when nobody disturbs it. -/
def RunsTo {pg : Postgres} {α : Type} (x : Worker.Task α) (w : World pg) (r : Except PyError α)
    (w' : World pg) : Prop :=
  ∃ tr y l, (pool pg (fun _ _ _ _ => True) fun _ : Unit => x).Alone x w active tr y w' l ∧
    y.outcome? = some r

/-- What one call asks to be stored. -/
structure Request where
  document : Document
  sourceId : ℕ
  relevance : Int

def Request.program (q : Request) : Worker.Task (AbiRow × Bool) :=
  Abi.getOrCreateAbi q.document.json q.sourceId q.relevance

/-- The two calls and the lookup return, and the second call finds the row of the first one
exactly if the documents differ in the order of keys alone. -/
def Deduplicates {pg : Postgres} (w : World pg) (a b : Request) : Prop :=
  ∃ first created w₁ second again w₂, RunsTo a.program w (.ok (first,created)) w₁ ∧
    RunsTo b.program w₁ (.ok (second,again)) w₂ ∧
    (second = first ∧ again = false ↔ Reordered a.document.json b.document.json) ∧
    RunsTo (getAbi a.document.json) w₂ (.ok (some first)) w₂

end Database

section Calls
variable {pg : Postgres} {w w' : World pg} {q : Request}

theorem runsTo_iff {α : Type} {x : Worker.Task α} (hx : Issues Internal x) {r : Except PyError α} :
    RunsTo x w r w' ↔ ∃ l, evaluate x w active = (r,w',l) := by
  have hsettles : (pool pg (fun _ _ _ _ => True) fun _ : Unit => x).Settles Internal (respond unasked) :=
    pool_settles _ _
  constructor
  · rintro ⟨tr,y,l,h,hr⟩
    exact ⟨l,h.eval hsettles hx hr⟩
  · rintro ⟨l,h⟩
    obtain ⟨tr,y,hy,hr⟩ := exists_alone hsettles.allows hx h
    exact ⟨tr,y,l,hy,hr⟩

theorem runsTo_program_iff {r : Except PyError (AbiRow × Bool)} :
    RunsTo q.program w r w' ↔ ∃ l, evaluate (q.program.bind .ret) w active = (r,w',l) := by
  have hissues : Issues Internal q.program := issues_getOrCreateAbi _ _ _
  rw [runsTo_iff hissues, Proc.bind_ret]

/-- A document that the database takes has a row after the call, which says whether it
has created that row. -/
theorem runsTo_program (haccepts : pg.acceptsJson q.document.json) (w : World pg) :
    ∃ row created w', RunsTo q.program w (.ok (row,created)) w' ∧
      w'.abiOf q.document.json = some row ∧ Persists w w' ∧
      (created = false ↔ w.abiOf q.document.json = some row) := by
  cases hrow : w.abiOf q.document.json with
  | some row =>
    refine ⟨row,false,w,?_,hrow,Persists.refl w,by simp⟩
    exact runsTo_program_iff.mpr ⟨active,getOrCreateAbi_old haccepts hrow⟩
  | none =>
    have hfresh := (abiOf_eq_none w).mp hrow
    refine ⟨⟨w.nextAbiId,q.relevance,q.document.json,q.sourceId⟩,true,
      w.addAbi q.document.json q.sourceId q.relevance hfresh,?_,?_,Persists.addAbi hfresh,by simp⟩
    · exact runsTo_program_iff.mpr ⟨active,getOrCreateAbi_new haccepts hfresh⟩
    · rw [abiOf_addAbi, if_pos rfl]

theorem runsTo_refused (haccepts : ¬pg.acceptsJson q.document.json) {r : Except PyError (AbiRow × Bool)} :
    RunsTo q.program w r w' ↔ r = .error .dbApiError ∧ w' = w := by
  have hrefused : evaluate (q.program.bind .ret) w active = (.error .dbApiError,w,⟨true⟩) :=
    getOrCreateAbi_refused haccepts
  rw [runsTo_program_iff, hrefused]
  constructor
  · rintro ⟨l,h⟩
    cases h
    exact ⟨rfl,rfl⟩
  · rintro ⟨rfl,rfl⟩
    exact ⟨_,rfl⟩

theorem runsTo_getAbi {abiJson : Json} (haccepts : pg.acceptsJson abiJson) :
    RunsTo (getAbi abiJson) w (.ok (w.abiOf abiJson)) w := by
  have hinternal : Internal (.selectAbi abiJson) := trivial
  refine (runsTo_iff (Issues.perform hinternal)).mpr ⟨active,?_⟩
  have hselect : respond unasked w active (.selectAbi abiJson) = (.ok (w.abiOf abiJson),w,active) := by
    simp [respond, active, haccepts]
  exact Proc.eval_call hselect

end Calls

section Main
variable {accepted : Json → Bool} {sha256 : Bytes → Bytes}

/-- Of the documents that jsonb takes, the plain ones can be stored. -/
theorem acceptsJson_iff {j : Json} (hj : accepted j) :
    (postgres accepted sha256).acceptsJson j ↔ j.all plainTexts := by
  simp only [postgres, hj, Bool.true_and, hashInput_eq]
  cases j.all plainTexts <;> simp

theorem abiHash_eq_iff {a b : Document} (ha : a.json.all plainTexts) (hb : b.json.all plainTexts)
    (hsha : ∀ x ∈ hashInput a.json, ∀ y ∈ hashInput b.json, sha256 x = sha256 y → x = y) :
    (postgres accepted sha256).abiHash a.json = (postgres accepted sha256).abiHash b.json ↔
      Reordered a.json b.json := by
  rw [← canon_eq_iff a.distinct, ← hashInput_inj ha hb]
  have hsome : ∀ {j : Json}, j.all plainTexts → ∃ x, hashInput j = some x := fun hj =>
    ⟨_,(hashInput_eq _).trans (if_pos hj)⟩
  obtain ⟨x,hx⟩ := hsome ha
  obtain ⟨y,hy⟩ := hsome hb
  simp only [postgres, hx, hy, Option.getD_some, Option.some.injEq]
  exact ⟨hsha x hx y hy,congrArg sha256⟩

/-- Two calls deduplicate exactly if no string of their documents has a quotation mark or
a control character. -/
theorem deduplicates_iff {w : World (postgres accepted sha256)} {a b : Request}
    (ha : accepted a.document.json) (hb : accepted b.document.json)
    (hsha : ∀ x ∈ hashInput a.document.json, ∀ y ∈ hashInput b.document.json,
      sha256 x = sha256 y → x = y) :
    Deduplicates w a b ↔ a.document.json.all plainTexts ∧ b.document.json.all plainTexts := by
  constructor
  · rintro ⟨first,created,w₁,second,again,w₂,hfirst,hsecond,-,-⟩
    constructor
    · by_contra hplain
      cases ((runsTo_refused (mt (acceptsJson_iff ha).mp hplain)).mp hfirst).1
    · by_contra hplain
      cases ((runsTo_refused (mt (acceptsJson_iff hb).mp hplain)).mp hsecond).1
  · rintro ⟨hplain,hplain'⟩
    have haccepts : (postgres accepted sha256).acceptsJson a.document.json :=
      (acceptsJson_iff ha).mpr hplain
    have haccepts' : (postgres accepted sha256).acceptsJson b.document.json :=
      (acceptsJson_iff hb).mpr hplain'
    obtain ⟨first,created,w₁,hfirst,hrow,-,-⟩ := runsTo_program haccepts w
    obtain ⟨second,again,w₂,hsecond,hrow',hpersists,hagain⟩ := runsTo_program haccepts' w₁
    have hlookup := runsTo_getAbi (w := w₂) haccepts
    rw [hpersists.abi _ _ hrow] at hlookup
    refine ⟨first,created,w₁,second,again,w₂,hfirst,hsecond,?_,hlookup⟩
    have hhashes : (postgres accepted sha256).abiHash a.document.json =
        (postgres accepted sha256).abiHash b.document.json ↔ _ := abiHash_eq_iff hplain hplain' hsha
    rw [← hhashes]
    constructor
    · rintro ⟨rfl,hold⟩
      exact (abiOf_hash w₁ hrow).2.symm.trans (abiOf_hash w₁ (hagain.mp hold)).2
    · intro hhash
      have hsame : w₁.abiOf b.document.json = some first := by
        rw [← hrow, World.abiOf, World.abiOf, hhash]
      have hfound := hpersists.abi _ _ hsame
      rw [hrow'] at hfound
      cases hfound
      exact ⟨rfl,hagain.mpr hsame⟩

end Main

section Examples

/-- The digest of the one text that is hashed below. -/
def digest (text : Bytes) : Bytes :=
  if text = "[\x7b\"name\": \"transfer\", \"type\": \"function\"\x7d]".toUTF8.toList then
    [108, 165, 34, 99, 40, 123, 85, 136, 10, 192, 98, 72, 76, 58, 237, 167, 100, 24, 37, 38, 202, 28, 22,
      139, 27, 17, 68, 64, 35, 148, 133, 62]
  else text

def typeFirst : Document :=
  ⟨.arr [.obj [("type",.str "function"), ("name",.str "transfer")]],rfl,rfl⟩

def nameFirst : Document :=
  ⟨.arr [.obj [("name",.str "transfer"), ("type",.str "function")]],rfl,rfl⟩

example : hashInput typeFirst.json =
    some "[\x7b\"name\": \"transfer\", \"type\": \"function\"\x7d]".toUTF8.toList := by decide +kernel

theorem deduplicates_typeFirst :
    Deduplicates (World.empty (postgres (fun _ => true) digest)) ⟨typeFirst,1,0⟩ ⟨nameFirst,1,0⟩ := by
  refine (deduplicates_iff rfl rfl ?_).mpr ⟨rfl,rfl⟩
  have hsame : hashInput nameFirst.json = hashInput typeFirst.json :=
    (hashInput_inj rfl rfl).mpr rfl
  intro x hx y hy _
  rw [hsame] at hy
  exact Option.mem_unique hx hy

/-- A name with a quotation mark. -/
def quoting : Document := ⟨.arr [.obj [("name",.str "a\"b")]],rfl,rfl⟩

theorem quoting_notDeduplicates :
    RunsTo (Request.program ⟨quoting,1,0⟩) (World.empty (postgres (fun _ => true) digest))
      (.error .dbApiError) (World.empty (postgres (fun _ => true) digest)) ∧
    ¬Deduplicates (World.empty (postgres (fun _ => true) digest)) ⟨quoting,1,0⟩ ⟨quoting,1,0⟩ := by
  have hrefuses : ¬(postgres (fun _ => true) digest).acceptsJson quoting.json := by decide +kernel
  refine ⟨(runsTo_refused hrefuses).mpr ⟨rfl,rfl⟩,?_⟩
  rintro ⟨first,created,w₁,_,_,_,hfirst,_⟩
  cases ((runsTo_refused hrefuses).mp hfirst).1

end Examples
end SafeDecoder.Deduplication
