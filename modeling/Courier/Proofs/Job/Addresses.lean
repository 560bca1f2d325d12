import Courier.Proofs.Job.Accounting
import Courier.Proofs.Url.Recovery
import Mathlib.Tactic.Common

/-!
# Jobs that no address ends

The addresses of requests are taken apart while a collection is built.  `Job.Clears` says that a
job, from some progress on, does not end in the fault of an address; each of the lemmas below takes
one step off a job.  Converting a directory clears when no address in it forms its own mark
(`clears_convertDirectory`), and `ofText_recovers` puts this together with what is known of single
addresses and requests.
-/

namespace Courier

open Collection (Built buildItem convertRequest itemOf)
open Disk (SameDocuments)
open Discovery (IsWay)
open Outcome (mapError_eq_ok)
open Path (pathTo)
open Script (Strategy)

namespace Job

/-- From some progress on, the job does not end in the fault of an address. -/
def Clears {α : Type} (s : Surroundings) (job : Job α) (p : Progress) : Prop :=
  ∀ fault, (runFrom job s p).1 ≠ .error (.address fault)

section

variable {α β ε : Type} {s : Surroundings} {p : Progress} {d : Disk}

/-- A job that succeeds ends in no fault. -/
theorem clears_of_runFrom {job : Job α} {a : α} {q : Progress}
    (h : runFrom job s p = (.ok a, q)) : Clears s job p := by
  intro fault
  rw [h]
  rintro ⟨⟩

theorem clears_pure (a : α) : Clears s (pure a) p := clears_of_runFrom rfl

theorem clears_throw {fault : Fault} (h : ∀ other, fault ≠ .address other) :
    Clears s (throw fault : Job α) p := by
  rintro other ⟨⟩
  exact h other rfl

theorem Clears.bind {job : Job α} {next : α → Job β} (hjob : Clears s job p)
    (hnext : ∀ a q, runFrom job s p = (.ok a, q) → Clears s (next a) q) :
    Clears s (job >>= next) p := by
  intro fault
  rw [runFrom_bind]
  rcases hrun : runFrom job s p with ⟨other | a, q⟩
  · have hother := hjob fault
    rw [hrun] at hother
    rintro ⟨⟩
    exact hother rfl
  · exact hnext a q hrun fault

theorem clears_disk : Clears s disk p := clears_of_runFrom rfl

theorem clears_surroundings : Clears s surroundings p := clears_of_runFrom rfl

theorem clears_reportEntries (entries : List Log.Entry) : Clears s (reportEntries entries) p :=
  clears_of_runFrom rfl

theorem clears_ofExcept (fault : ε → Fault) (h : ∀ e other, fault e ≠ .address other)
    (result : Except ε α) : Clears s (ofExcept fault result) p := by
  rcases result with e | a
  · exact clears_throw (h e)
  · exact clears_pure a

theorem clears_onDisk (fault : ε → Fault) (h : ∀ e other, fault e ≠ .address other)
    (work : Disk → Except ε α × Disk) : Clears s (onDisk fault work) p := by
  rw [onDisk]
  refine .bind (clears_of_runFrom rfl) fun _ _ _ => ?_
  exact .bind (clears_of_runFrom rfl) fun _ _ _ => clears_ofExcept fault h _

theorem clears_ofConverting {c : Converting α} {result : Except Fault α} (h : Ends c result)
    (hresult : ∀ fault, result ≠ .error (.address fault)) : Clears s (ofConverting c) p := by
  have hends : (c.run.run []).run.1 = result := h []
  rw [ofConverting]
  dsimp only
  refine .bind (clears_reportEntries _) fun _ _ _ => ?_
  rw [hends]
  rcases result with fault | a
  · exact clears_throw fun other heq => hresult other (congrArg Except.error heq)
  · exact clears_pure a

theorem Clears.attempt {job : Job α} (h : Clears s job p) : Clears s (attempt job) p := by
  intro fault
  have hjob := h fault
  rw [runFrom_attempt]
  rcases hrun : runFrom job s p with ⟨other | a, q⟩
  · rw [hrun] at hjob
    dsimp only
    split
    · rintro ⟨⟩
    · rintro ⟨⟩
      exact hjob rfl
  · rintro ⟨⟩

/-! ## Documents -/

/-- The fault of a file is not that of an address. -/
theorem ofFile_ne_address (fault : FileFault) (other : Url.TokenFault) :
    Fault.ofFile fault ≠ .address other := by
  cases fault with
  | access => rintro ⟨⟩
  | nullInPath => rintro ⟨⟩

theorem clears_readText (path : String) : Clears s (readText path) p :=
  clears_disk.bind fun _ _ _ => clears_ofExcept .ofFile ofFile_ne_address _

theorem clears_readRequest (path : String) : Clears s (readRequest path) p := by
  refine (clears_readText path).bind fun text q _ => ?_
  refine clears_ofConverting (Collection.parse_ends text) fun fault => ?_
  rcases Request.ofText text with _ | _
  · rintro ⟨⟩
  · rintro ⟨⟩

theorem clears_readDocument (path : String) : Clears s (readDocument path) p := by
  refine (clears_reportEntries _).bind fun _ _ _ => ?_
  refine (clears_readRequest path).attempt.bind fun ended _ _ => ?_
  rcases ended with fault | r
  · exact (clears_reportEntries _).bind fun _ _ _ => clears_pure _
  · exact clears_pure _

mutual

theorem clears_readTree :
    ∀ (t : FileTree Unit) (p : Progress), Clears s (readTree t) p
  | .file name path (), p => by
    rw [readTree]
    refine (clears_readDocument path).bind fun outcome _ _ => ?_
    rcases outcome with failure | r
    · exact clears_pure _
    · exact clears_pure _
  | .folder name path label children, p => by
    rw [readTree]
    exact (clears_readTrees children p).bind fun _ _ _ => clears_pure _

/-- Reading the documents of trees takes no address apart. -/
theorem clears_readTrees :
    ∀ (ts : List (FileTree Unit)) (p : Progress), Clears s (readTrees ts) p
  | [], p => by
    rw [readTrees]
    exact clears_pure _
  | t :: ts, p => by
    rw [readTrees]
    refine (clears_readTree t p).bind fun _ q _ => ?_
    exact (clears_readTrees ts q).bind fun _ _ _ => clears_pure _

end

theorem clears_arrange (root : String) (paths : List String) :
    Clears s (arrange root paths) p := by
  rw [arrange]
  split
  · exact clears_throw (by simp)
  · refine clears_disk.bind fun _ _ _ => ?_
    exact (clears_reportEntries _).bind fun _ _ _ => clears_pure _

theorem clears_requestDocuments (excluded : List String) (directory : String) :
    Clears s (requestDocuments excluded directory) p := by
  have hreturn : ∀ (documents : List String) (q : Progress),
      Clears s (do
        if documents.isEmpty then throw (.refused (.noRequests directory))
        return documents) q := by
    intro documents q
    split
    · exact .bind (clears_throw (by simp)) fun _ _ _ => clears_pure _
    · exact clears_pure _
  rw [requestDocuments]
  refine clears_disk.bind fun _ _ _ => ?_
  refine .bind (clears_ofExcept .access (by simp) _) fun found _ _ => ?_
  dsimp only
  split
  · exact (clears_reportEntries _).bind fun _ _ _ => hreturn _ _
  · exact hreturn _ _

/-! ## Written files -/

theorem clears_writeJson (path : String) (value : Json) : Clears s (writeJson path value) p := by
  rw [writeJson, writeText]
  exact clears_onDisk .ofFile ofFile_ne_address _

theorem clears_convertEnvironment (stamp : Environment.Stamp) (target document : String) :
    Clears s (convertEnvironment stamp target document) p := by
  rw [convertEnvironment]
  refine (clears_readText document).bind fun text _ _ => ?_
  split
  · exact (clears_reportEntries _).bind fun _ _ _ => clears_pure _
  · refine .bind (clears_ofExcept .rejected (by simp) _) fun value _ _ => ?_
    exact (clears_writeJson _ value).bind fun _ _ _ => clears_pure _

theorem clears_convertEnvironmentsFrom (target : String) (number : Nat) (documents : List String) :
    Clears s (convertEnvironmentsFrom target number documents) p := by
  induction documents generalizing number p with
  | nil => exact clears_pure _
  | cons document documents ih =>
    rw [convertEnvironmentsFrom]
    refine clears_surroundings.bind fun _ _ _ => ?_
    refine (clears_convertEnvironment _ target document).attempt.bind fun ended _ _ => ?_
    have hrest : ∀ (written : List String) (q : Progress), Clears s (do
        let rest ← convertEnvironmentsFrom target (number + 1) documents
        pure (written ++ rest)) q := fun written q =>
      (ih (number + 1)).bind fun _ _ _ => clears_pure _
    rcases ended with fault | _ | path
    · exact (clears_reportEntries _).bind fun _ _ _ =>
        (clears_pure _).bind fun written q _ => hrest written q
    · exact (clears_pure _).bind fun written q _ => hrest written q
    · exact (clears_reportEntries _).bind fun _ _ _ =>
        (clears_pure _).bind fun written q _ => hrest written q

theorem clears_convertEnvironments (directory target : String) :
    Clears s (convertEnvironments directory target) p := by
  rw [convertEnvironments]
  refine clears_disk.bind fun _ _ _ => ?_
  dsimp only
  split
  · exact (clears_reportEntries _).bind fun _ _ _ => clears_pure _
  · refine .bind (clears_ofExcept .access (by simp) _) fun documents _ _ => ?_
    exact clears_convertEnvironmentsFrom target 0 documents

/-! ## Directories -/

variable {strategy : Strategy} {directory : String} {ways : List (List String)}
  {documents : List String}

/-- No address of a request in the documents forms its own mark. -/
def Recoverable (d : Disk) (documents : List String) : Prop :=
  ∀ path ∈ documents, ∀ r, d.request? path = some r → ¬ Url.FormsMark r.url.toList

theorem clears_buildTree {tree : FileTree (Option Request)}
    (h : ∀ f ∈ tree.files, ∀ r, f.content = some r → ¬ Url.FormsMark r.url.toList) :
    Clears s (ofConverting (Converting.ofBuilding
      (Collection.buildTree (Collection.batchOptions strategy) tree))) p := by
  rcases Collection.buildTree_cases (Collection.batchOptions strategy) tree with
    ⟨y, -, -, hends, -⟩ | ⟨fault, hends, f, hf, r, hr, hyield⟩
  · refine clears_ofConverting (Collection.ofBuilding_ends hends) fun _ => ?_
    rintro ⟨⟩
  · -- A request of the batch whose address is taken apart is at most left out.
    obtain ⟨url, hurl⟩ := Url.exists_ofText (h f hf r hr)
    have hkept : (Collection.batchOptions strategy).leaveOut = false :=
      (Collection.yieldOf_eq_error hurl hyield).1
    cases hkept

theorem clears_collect (hlog : s.Spares) (hways : ∀ way ∈ ways, IsWay way)
    (hdocuments : documents.Perm (ways.map (pathTo directory)))
    (haddresses : Recoverable d documents) (hp : SameDocuments d p.disk) (title : Json) :
    Clears s (collect strategy title directory documents) p := by
  rw [collect]
  refine (clears_arrange directory documents).bind fun arranged q hq => ?_
  obtain ⟨hsame, harranged⟩ := (keeps_arrange hlog directory documents).of_runFrom hp hq
  obtain rfl := harranged arranged rfl
  refine (clears_readTree _ q).bind fun read q' hq' => ?_
  obtain ⟨-, hread⟩ := (keeps_readTree hlog _ fun f hf =>
    isDocument_of_mem_fileTree hways hdocuments hf).of_runFrom hsame hq'
  obtain ⟨tree, unread⟩ := read
  replace hread : ReadTree d (d.fileTree directory documents) tree unread := hread _ rfl
  refine (clears_buildTree fun f hf r hr => ?_).bind fun y _ _ => ?_
  · rw [hread.files_eq] at hf
    obtain ⟨g, hg, rfl⟩ := List.mem_map.1 hf
    obtain ⟨way, hway, rfl⟩ :=
      List.mem_map.1 ((d.files_fileTree hways hdocuments).mem_iff.1 hg)
    exact haddresses _ (hdocuments.mem_iff.2 (List.mem_map_of_mem hway)) r hr
  · refine .bind (clears_ofConverting (.ofExcept _) fun fault => ?_) fun _ _ _ => clears_pure _
    rcases Collection.validateCollection _ with _ | _
    · rintro ⟨⟩
    · rintro ⟨⟩

/-- Converting a directory is not ended by an address that does not form its own mark. -/
theorem clears_convertDirectory {o : BatchOptions} (hsound : p.disk.root.Sound) (hlog : s.Spares)
    (haddresses : ∀ found, Discovery.documents p.disk o.excluded directory = .ok found →
      Recoverable p.disk found) :
    Clears s (convertDirectory o directory) p := by
  rw [convertDirectory]
  refine (clears_requestDocuments o.excluded directory).bind fun documents p₁ hrun => ?_
  obtain ⟨hfirst, found, hfound, rfl⟩ := requestDocuments_eq_ok hlog hrun
  obtain ⟨ways, hperm, -, hways⟩ := Discovery.documents_eq_ok hsound hfound
  have hrequests := hperm.filter fun path => !Discovery.isEnvironment p.disk directory path
  rw [List.filter_map] at hrequests
  refine clears_disk.bind fun _ _ hdisk => ?_
  cases hdisk
  refine (clears_reportEntries _).bind fun _ p₂ hreport => ?_
  obtain ⟨hsame, -⟩ := (keeps_reportEntries hlog _).of_runFrom hfirst hreport
  refine (clears_reportEntries _).bind fun _ p₃ hreport => ?_
  obtain ⟨hsame, -⟩ := (keeps_reportEntries hlog _).of_runFrom hsame hreport
  refine .bind (clears_ofExcept .refused (by simp) _) fun _ p₄ hcheck => ?_
  obtain ⟨hsame, -⟩ := (keeps_ofExcept _ _).of_runFrom hsame hcheck
  refine (clears_collect hlog (fun way hway => hways way (List.mem_of_mem_filter hway))
    hrequests (fun path hpath => haddresses found hfound path (List.mem_of_mem_filter hpath))
    hsame _).bind fun _ _ _ => ?_
  refine (clears_reportEntries _).bind fun _ _ _ => ?_
  refine (clears_writeJson _ _).bind fun _ _ _ => ?_
  dsimp only
  split
  · refine Clears.bind ?_ fun _ _ _ => clears_surroundings.bind fun _ _ _ => clears_pure _
    exact clears_disk.bind fun _ _ _ => clears_convertEnvironments directory _
  · exact (clears_pure _).bind fun _ _ _ => clears_surroundings.bind fun _ _ _ => clears_pure _

end

/-- An address is taken apart and keeps its text, or it forms its own mark, which takes a tab or a
line end.  An address of the first kind ends no conversion: neither that of its request, nor that
of a directory in which all addresses are such. -/
theorem ofText_recovers (raw : List Char) (r : Request) (s : Surroundings) (o : BatchOptions)
    (directory : String) (p : Progress) :
    ((∃ url, Url.ofText raw = .ok url ∧ url.raw = String.ofList raw) ∨
      (Url.ofText raw = .error .unknown ∧ Url.FormsMark raw)) ∧
    (Url.FormsMark raw → ∃ c ∈ raw, Url.interrupts c = true) ∧
    (¬ Url.FormsMark r.url.toList →
      (∃ json, convertRequest r = .ok json) ∧
      ∀ strategy name, ∃ built, Ends (buildItem strategy name r) (.ok built)) ∧
    (p.disk.root.Sound → s.Spares →
      (∀ found, Discovery.documents p.disk o.excluded directory = .ok found →
        Recoverable p.disk found) →
      Clears s (convertDirectory o directory) p) := by
  refine ⟨?_, fun h => h.exists_mem, fun h => ?_, fun hsound hlog haddresses =>
    clears_convertDirectory hsound hlog haddresses⟩
  · rcases htaken : Url.ofText raw with fault | url
    · obtain rfl := Url.fault_of_ofText htaken
      refine .inr ⟨rfl, of_not_not fun h => ?_⟩
      obtain ⟨url, hurl⟩ := Url.exists_ofText h
      cases htaken.symm.trans hurl
    · exact .inl ⟨url, rfl, Url.raw_of_ofText htaken⟩
  · obtain ⟨url, hurl⟩ := Url.exists_ofText h
    refine ⟨⟨_, by rw [convertRequest, hurl]; rfl⟩, fun strategy name => ?_⟩
    obtain ⟨built, hbuilt⟩ := Collection.itemOf_of_ofText strategy name hurl
    exact ⟨built, hbuilt ▸ Collection.buildItem_ends strategy name r⟩

/-- A masked address with a tab is taken apart, the request of a document with an address that
begins with a placeholder is converted, and so is the directory of that document. -/
theorem ofText_recovers_pong :
    (∃ url, Url.ofText "https://h\t/\x7b\x7bx\x7d\x7d".toList = .ok url ∧
      url.raw = "https://h\t/\x7b\x7bx\x7d\x7d") ∧
    (∃ r, pongDisk.request? "api/old/pong.bru" = some r ∧ ∃ json, convertRequest r = .ok json) ∧
    Clears pongSurroundings (convertDirectory pongOptions "api") ⟨pongDisk, [], []⟩ := by
  have hurl : (pongDisk.request? "api/old/pong.bru").map (·.url) =
      some "\x7b\x7bhost\x7d\x7d/pong" := by decide +kernel
  obtain ⟨r, hr, hrurl⟩ := Option.map_eq_some_iff.1 hurl
  have hclear : ¬ Url.FormsMark r.url.toList := by
    rw [hrurl]
    decide +kernel
  have hlog : pongSurroundings.Spares := Surroundings.spares_of_extension fun file hfile => by
    cases hfile
    decide
  obtain ⟨htaken, -, hconverted, hclears⟩ := ofText_recovers
    "https://h\t/\x7b\x7bx\x7d\x7d".toList r pongSurroundings pongOptions "api" ⟨pongDisk, [], []⟩
  refine ⟨?_, ⟨r, hr, (hconverted hclear).1⟩, hclears sound_pongDisk hlog ?_⟩
  · have htab : ¬ Url.FormsMark "https://h\t/\x7b\x7bx\x7d\x7d".toList := by decide +kernel
    rw [String.ofList_toList] at htaken
    exact htaken.resolve_right fun h => htab h.2
  · intro found hfound path hpath other hother
    have hdocuments : Discovery.documents pongDisk [] "api" = .ok ["api/old/pong.bru"] := by
      decide +kernel
    cases hdocuments.symm.trans hfound
    cases List.mem_singleton.1 hpath
    cases hr.symm.trans hother
    exact hclear

/-- A document with an address that forms its own mark. -/
def tabDocument : List Char :=
  ("meta \x7b\n  name: Ping\n  type: http\n\x7d\n" ++
    "get \x7b\n  url: http://h/__v\tar0__\n\x7d").toList

/-- A directory with that document. -/
def tabDisk : Disk where
  root := .directory [("api", .directory [("ping.bru", .file (Text.Utf8.encode tabDocument))])]
  cwd := []

/-- An address that forms its own mark can end every conversion of its request, also that of the
whole directory: the tab is removed, and what remains is a token without placeholder. -/
theorem ofText_unknown_token :
    ∃ r, Request.ofText tabDocument = .ok r ∧ r.url = "http://h/__v\tar0__" ∧
      Url.ofText r.url.toList = .error .unknown ∧ convertRequest r = .error .unknown ∧
      (∀ strategy name, Ends (buildItem strategy name r) (.error (.token .unknown))) ∧
      ∃ q, runFrom (convertDirectory pongOptions "api") pongSurroundings ⟨tabDisk, [], []⟩ =
        (.error (.address .unknown), q) := by
  have hread : (Request.ofText tabDocument).toOption.map (·.url) = some "http://h/__v\tar0__" := by
    decide +kernel
  have haddress : Url.ofText "http://h/__v\tar0__".toList = .error .unknown := by
    decide +kernel
  have hbatch : (runFrom (convertDirectory pongOptions "api") pongSurroundings
      ⟨tabDisk, [], []⟩).1.map (fun _ => ()) = .error (.address .unknown) := by
    decide +kernel
  rcases hof : Request.ofText tabDocument with fault | r
  · rw [hof] at hread
    cases hread
  rw [hof] at hread
  have hurl : r.url = "http://h/__v\tar0__" := Option.some.inj hread
  have hconvert : convertRequest r = .error .unknown := by
    rw [convertRequest, hurl, haddress]
    rfl
  refine ⟨r, rfl, hurl, by rw [hurl, haddress], hconvert, fun strategy name => ?_, ?_⟩
  · have hends := Collection.buildItem_ends strategy name r
    rwa [itemOf, hconvert] at hends
  · rcases hrun : runFrom (convertDirectory pongOptions "api") pongSurroundings
      ⟨tabDisk, [], []⟩ with ⟨fault | result, q⟩
    · rw [hrun] at hbatch
      cases hbatch
      exact ⟨q, rfl⟩
    · rw [hrun] at hbatch
      cases hbatch

end Job

end Courier
