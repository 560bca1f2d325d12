import Courier.Proofs.Collection.Outcomes
import Mathlib.Data.List.Forall2
import Mathlib.Data.List.Perm.Basic
import Mathlib.Tactic.Common

/-!
# A collection mirrors its tree

Building a tree ends in the items and failures that belong to it (`Mirrored`), or in the fault of one
of its requests.

* `runAll_ends` and `arrange_perm`: the computations for children can be run in any order.
* `ends_builds` follows the recursion of `childList`.
* `buildTree_mirrors` is the main statement, about whole trees.
-/

namespace Courier.Collection

open FileTree (Placed filesIn filesAt)
open Schema (Rejection)

variable {o : Options}

/-! ## Requests -/

/-- What building the request of a file ends in. -/
def yieldOf (o : Options) (path : String) (r : Request) : Except BuildFault Yield :=
  match itemOf o.strategy r.metadata.name r with
  | .error fault => .error fault
  | .ok built =>
    match o.accept built.item with
    | .ok content => .ok ⟨[.request content], built.warnings, []⟩
    | .error rejection =>
      if o.leaveOut then .ok ⟨[], built.warnings, [rejectedAt path rejection]⟩
      else .error (.rejected rejection)

theorem buildRequest_ends (o : Options) (path : String) (r : Request) :
    Ends (buildRequest o path r) (yieldOf o path r) := by
  have hbuilt := buildItem_ends o.strategy r.metadata.name r
  rw [yieldOf]
  rcases hitem : itemOf o.strategy r.metadata.name r with fault | built
  · rw [hitem] at hbuilt
    exact .bind_error hbuilt
  · rw [hitem] at hbuilt
    refine .bind hbuilt ?_
    dsimp only
    rcases o.accept built.item with rejection | content
    · dsimp only
      rcases o.leaveOut with _ | _
      · exact .bind_error (.throw _)
      · exact .bind (.lift (Logging.yields_report _ _)) (.pure _)
    · exact .pure _

theorem yieldOf_cases {path : String} {r : Request} {y : Yield} (h : yieldOf o path r = .ok y) :
    (∃ content, Accepted o r content ∧ y.items = [.request content] ∧ y.failures = []) ∨
      ∃ rejection, Rejected o r rejection ∧ o.leaveOut = true ∧ y.items = [] ∧
        y.failures = [rejectedAt path rejection] := by
  rw [yieldOf] at h
  rcases hitem : itemOf o.strategy r.metadata.name r with fault | built
  · rw [hitem] at h
    cases h
  rw [hitem] at h
  rcases haccept : o.accept built.item with rejection | content
  · rcases hleave : o.leaveOut with _ | _
    · simp only [haccept, hleave, Bool.false_eq_true, if_false] at h
      cases h
    · simp only [haccept, hleave, if_true] at h
      cases h
      exact .inr ⟨rejection, ⟨built, hitem, haccept⟩, rfl, rfl, rfl⟩
  · simp only [haccept] at h
    cases h
    exact .inl ⟨content, ⟨built, hitem, haccept⟩, rfl, rfl⟩

/-! ## Running computations in order -/

/-- The join of results, or the first fault among them. -/
def joinAll : List (Except BuildFault Yield) → Except BuildFault Yield
  | [] => .ok .empty
  | result :: rest => do
    let first ← result
    let others ← joinAll rest
    return first.append others

theorem runAll_ends {builds : List (Building Yield)} {results : List (Except BuildFault Yield)}
    (h : List.Forall₂ Ends builds results) : Ends (runAll builds) (joinAll results) := by
  induction h with
  | nil => exact .pure _
  | @cons build result builds results hbuild _ ih =>
    rcases result with fault | first
    · exact .bind_error hbuild
    · refine .bind hbuild ?_
      rw [joinAll]
      rcases hjoin : joinAll results with fault | others
      · rw [hjoin] at ih
        exact .bind_error ih
      · rw [hjoin] at ih
        exact .bind ih (.pure _)

theorem joinAll_map_ok (ys : List Yield) :
    ∃ y, joinAll (ys.map .ok) = .ok y ∧ y.items = ys.flatMap (·.items) ∧
      y.failures = ys.flatMap (·.failures) := by
  induction ys with
  | nil => exact ⟨.empty, rfl, rfl, rfl⟩
  | cons first ys ih =>
    obtain ⟨others, hjoin, hitems, hfailures⟩ := ih
    refine ⟨first.append others, ?_, ?_, ?_⟩
    · rw [List.map_cons, joinAll, hjoin]
      rfl
    · rw [List.flatMap_cons, ← hitems]
      rfl
    · rw [List.flatMap_cons, ← hfailures]
      rfl

theorem exists_map_ok_or_error (results : List (Except BuildFault Yield)) :
    (∃ ys : List Yield, results = ys.map .ok) ∨ ∃ fault, .error fault ∈ results ∧
      joinAll results = .error fault := by
  induction results with
  | nil => exact .inl ⟨[], rfl⟩
  | cons result results ih =>
    rcases result with fault | first
    · exact .inr ⟨fault, List.mem_cons_self, rfl⟩
    · rcases ih with ⟨ys, rfl⟩ | ⟨fault, hmem, hjoin⟩
      · exact .inl ⟨first :: ys, rfl⟩
      · refine .inr ⟨fault, List.mem_cons_of_mem _ hmem, ?_⟩
        rw [joinAll, hjoin]
        rfl

/-! ## Arranging children -/

/-- The computation for a child, if there is one. -/
def Child.build? : Child → Option (Building Yield)
  | .folder _ build => some build
  | .request _ build => some build
  | .nothing => none

/-- Arranging children drops none of their computations and adds none. -/
theorem arrange_perm (children : List Child) :
    (arrange children).Perm (children.filterMap Child.build?) := by
  refine (((List.mergeSort_perm _ _).map _).append ((List.mergeSort_perm _ _).map _)).trans ?_
  induction children with
  | nil => rfl
  | cons c children ih =>
    rcases c with ⟨name, build⟩ | ⟨rank, build⟩ | _
    · exact ih.cons build
    · exact List.perm_middle.trans (ih.cons build)
    · exact ih

/-! ## Trees -/

/-- The computations for trees. -/
def builds (o : Options) (ts : List (FileTree (Option Request))) : List (Building Yield) :=
  (childList o ts).filterMap Child.build?

/-- What is known of the yields for trees when there was no fault. -/
structure Accounts (o : Options) (ts : List (FileTree (Option Request))) (ys : List Yield) :
    Prop where
  mirrored : ∃ failures, Mirrored o ts (ys.flatMap (·.items)) failures ∧
    (ys.flatMap (·.failures)).Perm failures
  filled : ∀ item ∈ ys.flatMap (·.items), item.Filled
  handled : ∀ f ∈ filesIn [] ts, ∀ r, f.content = some r → ∃ y, yieldOf o f.path r = .ok y

theorem Accounts.append {ts ts' : List (FileTree (Option Request))} {ys ys' : List Yield}
    (h : Accounts o ts ys) (h' : Accounts o ts' ys') : Accounts o (ts ++ ts') (ys ++ ys') := by
  obtain ⟨failures, hmirrored, hbelow⟩ := h.mirrored
  obtain ⟨failures', hmirrored', hbelow'⟩ := h'.mirrored
  constructor
  case mirrored =>
    rw [List.flatMap_append, List.flatMap_append]
    exact ⟨_, hmirrored.append hmirrored', hbelow.append hbelow'⟩
  case filled =>
    intro item hitem
    rw [List.flatMap_append, List.mem_append] at hitem
    exact hitem.elim (h.filled item) (h'.filled item)
  case handled =>
    intro f hf
    rw [FileTree.filesIn_append, List.mem_append] at hf
    exact hf.elim (h.handled f) (h'.handled f)

/-- What is known of the results of the computations for trees: a fault is that of a request, and
without one the yields are accounted for. -/
structure Results (o : Options) (ts : List (FileTree (Option Request)))
    (results : List (Except BuildFault Yield)) : Prop where
  accounts : ∀ ys : List Yield, results = ys.map .ok → Accounts o ts ys
  faults : ∀ fault, .error fault ∈ results →
    ∃ f ∈ filesIn [] ts, ∃ r, f.content = some r ∧ yieldOf o f.path r = .error fault

theorem Results.append {ts ts' : List (FileTree (Option Request))}
    {results results' : List (Except BuildFault Yield)} (h : Results o ts results)
    (h' : Results o ts' results') : Results o (ts ++ ts') (results ++ results') := by
  constructor
  case accounts =>
    intro ys hys
    obtain ⟨first, rest, rfl, hfirst, hrest⟩ := List.map_eq_append_iff.1 hys.symm
    exact (h.accounts first hfirst.symm).append (h'.accounts rest hrest.symm)
  case faults =>
    intro fault hfault
    rw [FileTree.filesIn_append]
    rcases List.mem_append.1 hfault with hfault | hfault
    · obtain ⟨f, hf, hr⟩ := h.faults fault hfault
      exact ⟨f, List.mem_append_left _ hf, hr⟩
    · obtain ⟨f, hf, hr⟩ := h'.faults fault hfault
      exact ⟨f, List.mem_append_right _ hf, hr⟩

/-- One result that is a yield. -/
theorem Results.of_ok {ts : List (FileTree (Option Request))} {y : Yield}
    (h : Accounts o ts [y]) : Results o ts [.ok y] where
  accounts := by
    rintro (_ | ⟨z, _ | ⟨z', zs⟩⟩) hzs <;> cases hzs
    exact h
  faults := by
    intro fault hfault
    cases List.mem_singleton.1 hfault

/-- One result that is a fault. -/
theorem Results.of_error {ts : List (FileTree (Option Request))} {fault : BuildFault}
    {f : Placed (Option Request)} {r : Request} (hf : f ∈ filesIn [] ts) (hr : f.content = some r)
    (hyield : yieldOf o f.path r = .error fault) : Results o ts [.error fault] where
  accounts := by
    rintro (_ | ⟨z, zs⟩) hzs <;> cases hzs
  faults := by
    intro fault' hfault
    cases List.mem_singleton.1 hfault
    exact ⟨f, hf, r, hr, hyield⟩

/-- Trees without requests have no results. -/
theorem Results.nothing {ts : List (FileTree (Option Request))} (h : Mirrored o ts [] [])
    (hnone : ∀ f ∈ filesIn [] ts, f.content = none) : Results o ts [] where
  accounts := by
    rintro (_ | ⟨z, zs⟩) hzs
    · refine ⟨⟨[], h, .nil⟩, by simp, fun f hf r hr => ?_⟩
      rw [hnone f hf] at hr
      cases hr
    · cases hzs
  faults := by simp

/-- The results for a request. -/
theorem results_request (o : Options) (name path : String) (r : Request) :
    Results o [.file name path (some r)] [yieldOf o path r] := by
  have hfile : filesIn [] [FileTree.file name path (some r)] = [⟨[], path, some r⟩] := by
    rw [filesIn, filesIn, filesAt, List.append_nil]
  rcases hyield : yieldOf o path r with fault | y
  · exact .of_error (hfile ▸ List.mem_singleton_self _) rfl hyield
  · have hhandled : ∀ f ∈ filesIn [] [FileTree.file name path (some r)], ∀ r', f.content = some r' →
        ∃ y, yieldOf o f.path r' = .ok y := by
      intro f hf r' hr'
      rw [hfile, List.mem_singleton] at hf
      subst hf
      cases hr'
      exact ⟨y, hyield⟩
    refine .of_ok ?_
    rcases yieldOf_cases hyield with ⟨content, haccepted, hitems, hfailures⟩ |
      ⟨rejection, hrejected, -, hitems, hfailures⟩
    · refine ⟨⟨[], ?_, ?_⟩, ?_, hhandled⟩
      · simpa [hitems] using Mirrored.accepted name path haccepted .nil
      · simp [hfailures]
      · simp [hitems, Item.Filled.request]
    · refine ⟨⟨[rejectedAt path rejection], ?_, ?_⟩, ?_, hhandled⟩
      · simpa [hitems] using Mirrored.rejected name path hrejected .nil
      · simp [hfailures]
      · simp [hitems]

/-- Results in another order. -/
theorem exists_perm_of_map_ok {results : List (Except BuildFault Yield)} {ys : List Yield}
    (h : (ys.map .ok).Perm results) : ∃ ys' : List Yield, results = ys'.map .ok ∧ ys.Perm ys' := by
  rcases exists_map_ok_or_error results with ⟨ys', rfl⟩ | ⟨fault, hmem, -⟩
  · exact ⟨ys', rfl, (List.map_perm_map_iff fun _ _ heq => Except.ok.inj heq).1 h⟩
  · obtain ⟨y, -, heq⟩ := List.mem_map.1 (h.mem_iff.2 hmem)
    cases heq

/-- The result of running all computations for trees in some order. -/
theorem Results.joinAll {ts : List (FileTree (Option Request))}
    {results results' : List (Except BuildFault Yield)} (h : Results o ts results)
    (hperm : results'.Perm results) :
    (∃ y failures inner, joinAll results' = .ok y ∧ Mirrored o ts inner failures ∧
      (∀ item ∈ inner, item.Filled) ∧ y.items.Perm inner ∧ y.failures.Perm failures ∧
      ∀ f ∈ filesIn [] ts, ∀ r, f.content = some r → ∃ y, yieldOf o f.path r = .ok y) ∨
    ∃ fault, joinAll results' = .error fault ∧
      ∃ f ∈ filesIn [] ts, ∃ r, f.content = some r ∧ yieldOf o f.path r = .error fault := by
  rcases exists_map_ok_or_error results' with ⟨ys, rfl⟩ | ⟨fault, hmem, hjoin⟩
  · obtain ⟨ys', rfl, hys⟩ := exists_perm_of_map_ok hperm
    obtain ⟨y, hjoin, hitems, hfailures⟩ := joinAll_map_ok ys
    obtain ⟨⟨failures, hmirrored, hbelow⟩, hfilled, hhandled⟩ := h.accounts ys' rfl
    refine .inl ⟨y, failures, _, hjoin, hmirrored, hfilled, ?_, ?_, hhandled⟩
    · exact hitems ▸ hys.flatMap_right _
    · exact (hfailures ▸ hys.flatMap_right _).trans hbelow
  · exact .inr ⟨fault, hjoin, h.faults fault (hperm.mem_iff.1 hmem)⟩

/-- The result for a folder. -/
theorem Results.inFolder {children : List (FileTree (Option Request))}
    {results results' : List (Except BuildFault Yield)} (name path : String) (shown : Option String)
    (h : Results o children results) (hperm : results'.Perm results) :
    Results o [.folder name path shown children]
      [(Collection.joinAll results').map
        (Yield.inFolder (FileTree.folder name path shown children).shownName)] := by
  have hfiles : filesIn [] [FileTree.folder name path shown children] =
      (filesIn [] children).map
        (Placed.within [(FileTree.folder name path shown children).shownName]) := by
    rw [filesIn, filesIn, List.append_nil, ← FileTree.filesIn_eq_map]
    rfl
  rcases h.joinAll hperm with
    ⟨y, failures, inner, hjoin, hmirrored, hfilled, hitems, hfailures, hhandled⟩ |
    ⟨fault, hjoin, f, hf, r, hr, hyield⟩
  · obtain ⟨hfolder, hfolderFilled⟩ := hmirrored.inFolder name path shown hfilled hitems
    rw [hjoin]
    refine .of_ok ⟨⟨failures, ?_, ?_⟩, ?_, ?_⟩
    · rw [List.flatMap_singleton]
      exact hfolder
    · rw [List.flatMap_singleton]
      exact hfailures
    · rw [List.flatMap_singleton]
      exact hfolderFilled
    · intro f hf
      rw [hfiles, List.mem_map] at hf
      obtain ⟨g, hg, rfl⟩ := hf
      exact hhandled g hg
  · rw [hjoin]
    have hplaced : f.within [(FileTree.folder name path shown children).shownName] ∈
        filesIn [] [FileTree.folder name path shown children] := by
      rw [hfiles]
      exact List.mem_map_of_mem hf
    exact .of_error hplaced hr hyield

/-- The computation for what is in a folder ends in the join of the results, in some order. -/
theorem runAll_arrange_ends {ts : List (FileTree (Option Request))}
    {results : List (Except BuildFault Yield)} (h : List.Forall₂ Ends (builds o ts) results) :
    ∃ results', results'.Perm results ∧
      Ends (runAll (arrange (childList o ts))) (joinAll results') := by
  obtain ⟨results', hforall, hperm⟩ := List.perm_comp_forall₂ (arrange_perm (childList o ts)) h
  exact ⟨results', hperm, runAll_ends hforall⟩

theorem inFolder_ends {build : Building Yield} {result : Except BuildFault Yield} (label : String)
    (h : Ends build result) :
    Ends (do return (← build).inFolder label) (result.map (Yield.inFolder label)) := by
  rcases result with fault | y
  · exact .bind_error h
  · exact .bind h (.pure _)

/-- Every computation for trees ends in a result, whatever has been reported before it. -/
theorem ends_builds (o : Options) :
    ∀ ts : List (FileTree (Option Request)),
      ∃ results, List.Forall₂ Ends (builds o ts) results ∧ Results o ts results
  | [] => ⟨[], .nil, .nothing .nil (by simp [filesIn])⟩
  | .file name path none :: ts => by
    obtain ⟨results, hends, hresults⟩ := ends_builds o ts
    have hfile : Results o [.file name path none] [] :=
      .nothing (.unread name path .nil) (by simp [filesIn, filesAt])
    exact ⟨results, hends, hfile.append hresults⟩
  | .file name path (some r) :: ts => by
    obtain ⟨results, hends, hresults⟩ := ends_builds o ts
    exact ⟨yieldOf o path r :: results, .cons (buildRequest_ends o path r) hends,
      (results_request o name path r).append hresults⟩
  | .folder name path shown children :: ts => by
    obtain ⟨below, hbelow, hinside⟩ := ends_builds o children
    obtain ⟨results, hends, hresults⟩ := ends_builds o ts
    obtain ⟨below', hperm, hrun⟩ := runAll_arrange_ends hbelow
    exact ⟨_ :: results, .cons (inFolder_ends _ hrun) hends,
      (hinside.inFolder name path shown hperm).append hresults⟩

theorem buildTree_eq (o : Options) (tree : FileTree (Option Request)) :
    buildTree o tree = runAll (arrange (childList o tree.children)) := by
  rcases tree with ⟨name, path, content⟩ | ⟨name, path, shown, children⟩
  · simp [buildTree, FileTree.children, childList, arrange, runAll]
  · rfl

/-- Building a tree either mirrors it, or ends in the fault of one of its requests. -/
theorem buildTree_cases (o : Options) (tree : FileTree (Option Request)) :
    (∃ y items failures, Ends (buildTree o tree) (.ok y) ∧
      Mirrored o tree.children items failures ∧ y.items.Perm items ∧
      y.failures.Perm failures ∧ (∀ item ∈ y.items, item.Filled) ∧
      ∀ f ∈ tree.files, ∀ r, f.content = some r → ∃ y, yieldOf o f.path r = .ok y) ∨
    ∃ fault, Ends (buildTree o tree) (.error fault) ∧
      ∃ f ∈ tree.files, ∃ r, f.content = some r ∧ yieldOf o f.path r = .error fault := by
  obtain ⟨results, hends, hresults⟩ := ends_builds o tree.children
  obtain ⟨results', hperm, hrun⟩ := runAll_arrange_ends hends
  rw [buildTree_eq]
  rcases hresults.joinAll hperm with
    ⟨y, failures, inner, hjoin, hmirrored, hfilled, hitems, hfailures, hhandled⟩ |
    ⟨fault, hjoin, hfault⟩
  · rw [hjoin] at hrun
    exact .inl ⟨y, inner, failures, hrun, hmirrored, hitems, hfailures,
      fun item hitem => hfilled item (hitems.mem_iff.1 hitem), hhandled⟩
  · rw [hjoin] at hrun
    exact .inr ⟨fault, hrun, hfault⟩

/-- A request whose address can be taken apart can only be rejected. -/
theorem yieldOf_eq_error {path : String} {r : Request} {url : Url} {fault : BuildFault}
    (hurl : Url.ofText r.url.toList = .ok url) (h : yieldOf o path r = .error fault) :
    o.leaveOut = false ∧ ∃ rejection, Rejected o r rejection ∧ fault = .rejected rejection := by
  obtain ⟨built, hbuilt⟩ := itemOf_of_ofText o.strategy r.metadata.name hurl
  simp only [yieldOf, hbuilt] at h
  rcases haccept : o.accept built.item with rejection | content
  · rcases hleave : o.leaveOut with _ | _
    · simp only [haccept, hleave, Bool.false_eq_true, if_false] at h
      cases h
      exact ⟨rfl, rejection, ⟨built, hbuilt, haccept⟩, rfl⟩
    · simp only [haccept, hleave, if_true] at h
      cases h
  · simp only [haccept] at h
    cases h

/-- A tree whose addresses can be taken apart is mirrored: every request is one leaf below the
folders around it or one failure with its path, other files are neither, a folder is an item if and
only if a request below it is accepted, and no folder is empty.  When rejected requests are not to be
left out, building is refused if and only if there is one. -/
theorem buildTree_mirrors (o : Options) (tree : FileTree (Option Request))
    (entries : List Log.Entry)
    (haddress : ∀ f ∈ tree.files, ∀ r, f.content = some r →
      ∃ url, Url.ofText r.url.toList = .ok url) :
    (o.leaveOut = true → ∃ y reported items failures leaves,
      ((buildTree o tree).run.run entries).run = (.ok y, reported) ∧
      Mirrored o tree.children items failures ∧ y.items.Perm items ∧
      y.failures.Perm failures ∧ (∀ item ∈ y.items, item.Filled) ∧
      Settled o tree.files leaves failures ∧ (leavesIn [] y.items).Perm leaves) ∧
    (o.leaveOut = false →
      ((∃ rejection reported,
        ((buildTree o tree).run.run entries).run = (.error (.rejected rejection), reported)) ↔
      ∃ f ∈ tree.files, ∃ r rejection, f.content = some r ∧ Rejected o r rejection)) := by
  constructor
  · intro hleave
    rcases buildTree_cases o tree with
      ⟨y, items, failures, hends, hmirrored, hitems, hfailures, hfilled, -⟩ |
      ⟨fault, -, f, hf, r, hr, hyield⟩
    · obtain ⟨leaves, hsettled, hleaves⟩ := hmirrored.settled []
      exact ⟨y, _, items, failures, leaves, Prod.ext (hends entries) rfl, hmirrored, hitems,
        hfailures, hfilled, hsettled, (leavesIn_perm [] hitems).trans hleaves⟩
    · obtain ⟨url, hurl⟩ := haddress f hf r hr
      have hkept := (yieldOf_eq_error hurl hyield).1
      rw [hleave] at hkept
      cases hkept
  · intro hleave
    rcases buildTree_cases o tree with ⟨y, -, -, hends, -, -, -, -, hhandled⟩ |
      ⟨fault, hends, f, hf, r, hr, hyield⟩
    · constructor
      · rintro ⟨rejection, reported, hrun⟩
        have hresult := hends entries
        rw [hrun] at hresult
        cases hresult
      · rintro ⟨f, hf, r, rejection, hr, built, hbuilt, haccept⟩
        obtain ⟨y, hyield⟩ := hhandled f hf r hr
        simp [yieldOf, hbuilt, haccept, hleave] at hyield
    · obtain ⟨url, hurl⟩ := haddress f hf r hr
      obtain ⟨-, rejection, hrejected, rfl⟩ := yieldOf_eq_error hurl hyield
      constructor
      · intro _
        exact ⟨f, hf, r, rejection, hr, hrejected⟩
      · intro _
        exact ⟨rejection, _, Prod.ext (hends entries) rfl⟩

/-- A request that is called by a name. -/
def pingRequest (name : String) : Request where
  metadata := ⟨name, "http", none⟩
  method := .get
  url := "\x7b\x7bhost\x7d\x7d/ping"
  headers := []
  queryParams := []
  pathParams := []
  body := none
  auth := none
  preScript := none
  testScript := none
  docs := none

/-- A tree with a request that is accepted, a file without request, and a folder that holds nothing
but a request that is rejected by `pingOptions`. -/
def pingTree : FileTree (Option Request) :=
  .folder "api" "api" none [
    .file "ping.bru" "api/ping.bru" (some (pingRequest "Ping")),
    .file "broken.bru" "api/broken.bru" none,
    .folder "old" "api/old" (some "Old") [
      .file "pong.bru" "api/old/pong.bru" (some (pingRequest "Pong"))]]

/-- Options that reject every item but those called `Ping`. -/
def pingOptions (leaveOut : Bool) : Options where
  strategy := .textual
  accept item := if nameInMessage item = "Ping" then .ok item else .error ⟨"item", []⟩
  leaveOut

theorem buildTree_mirrors_ping :
    (∃ y reported items failures leaves,
      ((buildTree (pingOptions true) pingTree).run.run []).run = (.ok y, reported) ∧
      Mirrored (pingOptions true) pingTree.children items failures ∧ y.items.Perm items ∧
      y.failures.Perm failures ∧ (∀ item ∈ y.items, item.Filled) ∧
      Settled (pingOptions true) pingTree.files leaves failures ∧
      (leavesIn [] y.items).Perm leaves) ∧
    ∃ rejection reported,
      ((buildTree (pingOptions false) pingTree).run.run []).run =
        (.error (.rejected rejection), reported) := by
  have hfiles : pingTree.files = [⟨[], "api/ping.bru", some (pingRequest "Ping")⟩,
      ⟨[], "api/broken.bru", none⟩, ⟨["Old"], "api/old/pong.bru", some (pingRequest "Pong")⟩] := by
    rfl
  have haddress : ∀ f ∈ pingTree.files, ∀ r, f.content = some r →
      ∃ url, Url.ofText r.url.toList = .ok url := by
    have hurl : Url.ofText "\x7b\x7bhost\x7d\x7d/ping".toList =
        .ok (Url.splitPlainly "\x7b\x7bhost\x7d\x7d/ping".toList) := by decide +kernel
    rw [hfiles]
    intro f hf r hr
    simp only [List.mem_cons, List.not_mem_nil, or_false] at hf
    rcases hf with rfl | rfl | rfl <;> cases hr
    · exact ⟨_, hurl⟩
    · exact ⟨_, hurl⟩
  refine ⟨(buildTree_mirrors (pingOptions true) pingTree [] haddress).1 rfl,
    ((buildTree_mirrors (pingOptions false) pingTree [] haddress).2 rfl).2 ?_⟩
  rw [hfiles]
  exact ⟨_, List.mem_cons_of_mem _ (List.mem_cons_of_mem _ List.mem_cons_self), _, _, rfl, _, rfl,
    rfl⟩

end Courier.Collection
