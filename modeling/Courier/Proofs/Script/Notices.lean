import Courier.Proofs.Script.References
import Courier.Proofs.Script.Rendering

/-!
# The notices of a rendering

Rendering a well nested tree gives the notices that are due for its visited nodes, each once and in
document order (`Renderer.render_notices`).  `Renderer.copy_notices` follows a copy along the
children of a node; the rest is induction on trees, with the cases of `Renderer.Way`.

`renderScript_notices` says so for whole scripts, and what their warnings and lines are.  A use
without replacement in the headers of a look-up is not reported.  There is none unless the property
of an access `pm.response` is more than a leaf; `renderScript_skips` shows a tree where it is.
-/

namespace Courier.Script

open Outcome (bind_eq_ok)

namespace Renderer

variable {r : Renderer} {parent : Option Tree} {t : Tree} {rendered : Rendering}
variable {f : Tree → Except Defect Rendering} {g : Tree → List Notice}

/-! ## Copies -/

/-- A copy gives the notices of the children in turn. -/
theorem copyFrom_notices {o : Option (Span × List Char)} {children : List Tree} {cursor stop : Nat}
    (hpiece : ∀ c ∈ children, ∀ y, piece o c (f c) = .ok y → y.notices = g c)
    (h : r.copyFrom o stop cursor (children.map fun c => (c, f c)) = .ok rendered) :
    rendered.notices = children.flatMap g := by
  induction children generalizing cursor rendered with
  | nil =>
    obtain ⟨tail, -, h⟩ := bind_eq_ok.1 h
    cases h
    rfl
  | cons c rest ih =>
    rw [List.map_cons, copyFrom_cons] at h
    obtain ⟨gap, -, h⟩ := bind_eq_ok.1 h
    obtain ⟨y, hy, h⟩ := bind_eq_ok.1 h
    obtain ⟨tail, htail, h⟩ := bind_eq_ok.1 h
    cases h
    rw [List.flatMap_cons, hpiece c List.mem_cons_self y hy,
      ih (fun d hd => hpiece d (List.mem_cons_of_mem _ hd)) htail]

/-- A callee that is replaced gives no notice, and the other children give theirs. -/
theorem copy_notices (hnest : t.WellNested)
    (hchild : ∀ c ∈ t.children, ∀ y, f c = .ok y → y.notices = g c)
    (hcallee : ∀ callee ∈ t.children, ∀ target, r.source.calleeTarget? callee = some target →
      g callee = [])
    (h : r.copy ((r.source.calleeEdit? t).map override) t (t.children.map fun c => (c, f c)) =
      .ok rendered) :
    rendered.notices = t.children.flatMap g := by
  rcases copy_cases h with ⟨hleaf, s, -, rfl⟩ | hcopy
  · rw [hleaf]
    rfl
  refine copyFrom_notices (fun c hc y hy => ?_) hcopy
  rcases hedit : r.source.calleeEdit? t with _ | e
  · rw [hedit] at hy
    exact hchild c hc y hy
  · obtain ⟨-, callee, target, hfunction, htarget, rfl⟩ := Source.calleeEdit?_eq_some.1 hedit
    obtain ⟨hmem, -⟩ := Tree.mem_of_child? hfunction
    rw [hedit] at hy
    by_cases heq : c.span = callee.span
    · have hspan := span_lt_of_markers (markers_of_calleeTarget? (hnest.child hmem) htarget)
      obtain rfl := hnest.nested.ordered.eq_of_span_eq hmem hc hspan heq
      simp only [Option.map_some, piece, override, if_true] at hy
      cases hy
      exact (hcallee c hc target htarget).symm
    · exact hchild c hc y (by simpa [piece, override, heq] using hy)

/-! ## Trees -/

/-- Rendering a well nested tree gives the notices that are due for its visited nodes. -/
theorem render_notices (hr : r.RenamesReserved) (hnest : t.WellNested)
    (hlooked : r.role = .test → r.source.isLookedUp parent t = false)
    (h : r.render t (parent.bind calleeSpan) = .ok rendered) :
    rendered.notices = r.source.notices r.role t := by
  induction t using Tree.induct generalizing parent rendered with
  | step t ih =>
    rw [render_eq] at h
    have hway := way_of_renderNode hr hnest hlooked h
    cases hway with
    | copied hcopied hedits hkey =>
      obtain ⟨copied, hcopy, -, hnotices⟩ := hcopied
      rw [hnotices, Source.notices_of_no_key hkey, copy_notices hnest (fun c hc y hy => ?_)
        (fun callee hc target htarget => ?_) hcopy]
      · exact ih c hc (hnest.child hc) (fun hrole => isLookedUp_of_headerKey? (hkey hrole) c) hy
      · exact (Source.quiet_of_calleeTarget? (hnest.child hc) htarget).notices_eq_nil
    | replaced hedits hbelow hquiet => exact hquiet.notices_eq_nil.symm
    | lookedUp hrole hkey hinner hedits =>
      rename_i key inner
      obtain ⟨hmem, -⟩ := Tree.mem_of_child? (Source.headerKey?_eq_some.1 hkey).2.2
      have hinside := ih key hmem (hnest.child hmem) (fun _ => isLookedUp_key hnest hkey) hinner
      rw [Source.notices_of_key hrole hkey, ← hinside]

/-! ## Renamed names -/

theorem editsAt_of_renamed (hname : t.kind.isName = true) (hmem : t.span ∈ r.renamed) :
    r.editsAt parent t ≠ [] := by
  rw [editsAt]
  split <;> simp_all [Kind.isName]

/-- A name that is renamed is no part of the headers in a look-up. -/
theorem mem_visited_of_renamed {u : Tree} (hr : r.RenamesReserved) (hnest : t.WellNested)
    (hu : u ∈ t.preorder) (hname : u.kind.isName = true) (hmem : u.span ∈ r.renamed) :
    u ∈ r.source.visited r.role t := by
  induction t using Tree.induct with
  | step t ih =>
    rw [Tree.preorder_eq, List.mem_cons, List.mem_flatMap] at hu
    rcases hu with rfl | ⟨c, hc, hu⟩
    · rw [Source.visited_eq]
      exact List.mem_cons_self
    rcases hkey : if r.role = .test then r.source.headerKey? t else none with _ | key
    · rw [Source.visited_eq, hkey]
      exact List.mem_cons_of_mem _ (List.mem_flatMap.2 ⟨c, hc, ih c hc (hnest.child hc) hu⟩)
    obtain ⟨hrole, hkey⟩ := Option.ite_none_right_eq_some.1 hkey
    obtain ⟨hkind, ⟨object, hobject, hheaders⟩, hindex⟩ := Source.headerKey?_eq_some.1 hkey
    have hedits : r.sites (some t) c ≠ [] := by
      obtain ⟨above, habove⟩ := Tree.exists_mem_withParents hu (some t)
      intro hnone
      exact editsAt_of_renamed hname hmem (List.flatMap_eq_nil_iff.1 hnone _ habove)
    rcases (hnest.nested.subscript hkind).1 c hc with hpunct | ⟨field, hfield, hfills⟩
    · exact absurd (sites_of_punctuation hpunct) hedits
    have hpart := (hnest.nested.subscript hkind).child?_eq hfield hc hfills
    simp only [List.mem_cons, List.not_mem_nil, or_false] at hfield
    rcases hfield with rfl | rfl
    · cases hobject.symm.trans hpart
      have hlookup : r.source.isLookedUp (some t) c = true := by
        simp [Source.isLookedUp, hkey, hpart]
      exact absurd (sites_of_isHeaders hr (hnest.child hc) hheaders hlookup) hedits
    · cases hindex.symm.trans hpart
      rw [Source.visited_of_key hrole hkey]
      exact List.mem_cons_of_mem _ (ih c hc (hnest.child hc) hu)

end Renderer

/-! ## Scripts -/

variable {source : Source} {role : Role} {root : Tree}

/-- There is a plan to rename something exactly if it renames a visited name. -/
theorem exists_renamed_iff {plan : Option (List Span × List Char)} (hnest : root.WellNested)
    (h : planRename source role root = .ok plan) : plan.isSome = true ↔
      ∃ u ∈ source.visited role root, u.kind.isName = true ∧ Renames plan u := by
  have hr : (rendererOf source role plan).RenamesReserved := planRename_spell h
  rcases planRename_cases h with rfl | ⟨-, spans, newName, hspans, hne, -, rfl⟩
  · simp [Renames]
  · obtain ⟨span, rest, rfl⟩ := List.exists_cons_of_ne_nil hne
    obtain ⟨u, hu, hnamed, rfl⟩ := exists_named_of_mem hspans List.mem_cons_self
    have hvisited := Renderer.mem_visited_of_renamed hr hnest hu hnamed.1 List.mem_cons_self
    exact iff_of_true rfl ⟨u, hvisited, hnamed.1, _, rfl, List.mem_cons_self⟩

/-- The warnings about a script with a well nested tree: one for each use without replacement in
document order, then one about all of them if there are any, which also puts the marker line before
the script, and then one about renamed variables if a name is renamed.  All uses of the tree are
reported, except in the headers of a look-up where the property of `pm.response` is not a leaf. -/
theorem renderScript_notices {w : Rendered} (hnest : root.WellNested)
    (h : renderScript source role root = .ok w) :
    ∃ plan, planRename source role root = .ok plan ∧ w.newName = plan.map (·.2) ∧
      let due := source.notices role root
      w.notices = due ∧
      ((role = .test → source.PlainResponses root) →
        due = root.preorder.filterMap (source.notice? role)) ∧
      w.conversion.warnings = due.map Notice.message ++
        (if due = [] then [] else [partialWarning]) ++ (w.newName.map renameWarning).toList ∧
      (w.newName.isSome = true ↔
        ∃ u ∈ source.visited role root, u.kind.isName = true ∧ Renames plan u) ∧
      w.conversion.lines =
        (if due = [] then [] else [partialMarker]) ++ Text.lineStrings w.text := by
  obtain ⟨plan, hplan, h⟩ := bind_eq_ok.1 h
  obtain ⟨head, -, h⟩ := bind_eq_ok.1 h
  obtain ⟨body, hbody, h⟩ := bind_eq_ok.1 h
  obtain ⟨tail, -, h⟩ := bind_eq_ok.1 h
  cases h
  have hr : (rendererOf source role plan).RenamesReserved := planRename_spell hplan
  have hlooked : role = .test → source.isLookedUp none root = false := fun _ => rfl
  have hnotices : body.notices = source.notices role root :=
    Renderer.render_notices (r := rendererOf source role plan) hr hnest hlooked hbody
  refine ⟨plan, hplan, rfl, hnotices, Source.notices_eq_preorder hnest, ?_, ?_, ?_⟩
  · rw [← hnotices, Rendered.conversion]
    rcases body.notices with _ | ⟨notice, rest⟩
    · rfl
    · simp
  · rw [Option.isSome_map]
    exact exists_renamed_iff hnest hplan
  · rw [← hnotices, Rendered.conversion]
    rcases body.notices with _ | ⟨notice, rest⟩
    · rfl
    · rfl

/-- A script that uses what has no replacement in two places, and a name that is renamed. -/
def reportedScript : Source :=
  Text.Utf8.encode "var responseBody = bru.a.b(res.ok)".toList

/-- The tree of `reportedScript`. -/
def reportedTree : Tree :=
  .node { kind := .program, span := ⟨0, 34⟩ } [
    .node { kind := .variableDeclaration, span := ⟨0, 34⟩ } [
      .node { kind := .other "var", span := ⟨0, 3⟩, isNamed := false } [],
      .node { kind := .variableDeclarator, span := ⟨4, 34⟩ } [
        .node { kind := .identifier, span := ⟨4, 16⟩, field := some .name } [],
        .node { kind := .other "=", span := ⟨17, 18⟩, isNamed := false } [],
        .node { kind := .callExpression, span := ⟨19, 34⟩, field := some .value } [
          .node { kind := .memberExpression, span := ⟨19, 26⟩, field := some .function } [
            .node { kind := .memberExpression, span := ⟨19, 24⟩, field := some .object } [
              .node { kind := .identifier, span := ⟨19, 22⟩, field := some .object } [],
              .node { kind := .other ".", span := ⟨22, 23⟩ } [],
              .node { kind := .propertyIdentifier, span := ⟨23, 24⟩, field := some .property } []],
            .node { kind := .other ".", span := ⟨24, 25⟩ } [],
            .node { kind := .propertyIdentifier, span := ⟨25, 26⟩, field := some .property } []],
          .node { kind := .other "arguments", span := ⟨26, 34⟩ } [
            .node { kind := .other "(", span := ⟨26, 27⟩ } [],
            .node { kind := .memberExpression, span := ⟨27, 33⟩ } [
              .node { kind := .identifier, span := ⟨27, 30⟩, field := some .object } [],
              .node { kind := .other ".", span := ⟨30, 31⟩ } [],
              .node { kind := .propertyIdentifier, span := ⟨31, 33⟩, field := some .property } []],
            .node { kind := .other ")", span := ⟨33, 34⟩ } []]]]]]

/-- What `reportedScript` is rendered as. -/
def reportedResult : Rendered :=
  ⟨"var parsedResponseBody = bru.a.b(res.ok)".toList,
    [.chain "bru.a.b".toList, .property "ok".toList], some "parsedResponseBody".toList⟩

theorem renderScript_notices_reported :
    reportedTree.WellNested ∧ renderScript reportedScript .test reportedTree = .ok reportedResult ∧
      reportedResult.notices = reportedTree.preorder.filterMap (reportedScript.notice? .test) ∧
      reportedResult.conversion.warnings = [
        "Unmappable Bruno API: bru.a.b",
        "Unmappable Bruno response property: res.ok",
        partialWarning,
        "Variable \"responseBody\" renamed to \"parsedResponseBody\"" ++
          " to avoid Postman sandbox conflict"] ∧
      reportedResult.conversion.lines =
        partialMarker :: Text.lineStrings reportedResult.text := by
  have hnest : reportedTree.WellNested := by decide +kernel
  have hrender : renderScript reportedScript .test reportedTree = .ok reportedResult := by
    decide +kernel
  have hplain : reportedScript.PlainResponses reportedTree := by decide +kernel
  obtain ⟨-, -, -, hnotices, hall, hwarnings, -, hlines⟩ := renderScript_notices hnest hrender
  rw [← hnotices] at hall hwarnings hlines
  exact ⟨hnest, hrender, hall fun _ => hplain, by rw [hwarnings]; decide +kernel, hlines⟩

/-- A script that looks up a header. -/
def skippedScript : Source := Text.Utf8.encode "pm.response.headers[\"a\"]".toList

/-- A tree of `skippedScript` in which the property of `pm.response` is an access to `res`. -/
def skippedTree : Tree :=
  .node { kind := .program, span := ⟨0, 24⟩ } [
    .node { kind := .subscriptExpression, span := ⟨0, 24⟩ } [
      .node { kind := .memberExpression, span := ⟨0, 19⟩, field := some .object } [
        .node { kind := .memberExpression, span := ⟨0, 11⟩, field := some .object } [
          .node { kind := .identifier, span := ⟨0, 2⟩, field := some .object } [],
          .node { kind := .other ".", span := ⟨2, 3⟩ } [],
          .node { kind := .memberExpression, span := ⟨3, 11⟩, field := some .property } [
            .node { kind := .identifier, span := ⟨3, 6⟩, field := some .object } [],
            .node { kind := .propertyIdentifier, span := ⟨6, 11⟩, field := some .property } []]],
        .node { kind := .other ".", span := ⟨11, 12⟩ } [],
        .node { kind := .propertyIdentifier, span := ⟨12, 19⟩, field := some .property } []],
      .node { kind := .other "[", span := ⟨19, 20⟩ } [],
      .node { kind := .other "string", span := ⟨20, 23⟩, field := some .index } [],
      .node { kind := .other "]", span := ⟨23, 24⟩ } []]]

/-- A use in the headers of a look-up is not reported. -/
theorem renderScript_skips :
    skippedTree.WellNested ∧
      renderScript skippedScript .test skippedTree =
        .ok ⟨"pm.response.headers.get(\"a\")".toList, [], none⟩ ∧
      skippedTree.preorder.filterMap (skippedScript.notice? .test) =
        [.property "ponse".toList] := by
  decide +kernel

end Courier.Script
