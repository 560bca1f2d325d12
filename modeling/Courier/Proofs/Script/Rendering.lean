import Courier.Proofs.Script.Rule
import Courier.Proofs.Script.Scope
import Mathlib.Data.List.Basic
import Mathlib.Tactic.Common

/-!
# Rendering by edits

Rendering a well nested tree applies the edits of its nodes to its text
(`Renderer.render_applies`), and `renderScript_edits` says so for whole scripts.

`Renderer.copyFrom_applies` follows a copy along the children of a node: what has been written up to
a position is the script up to there with the edits of the children so far.  The rest is induction
on trees, with the cases of `Renderer.Way`.
-/

namespace Courier.Script

namespace Renderer

open Outcome (bind_eq_ok mapError_eq_ok)
open Courier.Script.Tree (Ordered)

variable {r : Renderer} {parent : Option Tree} {t : Tree} {rendered : Rendering}
variable {f : Tree → Except Defect Rendering}

/-! ## Copies -/

/-- The rendering of a child in a copy. -/
def piece (o : Option (Span × List Char)) (c : Tree) (rendered : Except Defect Rendering) :
    Except Defect Rendering :=
  match o with
  | some (span, text) => if c.span = span then pure ⟨text, []⟩ else rendered
  | none => rendered

theorem copyFrom_cons (r : Renderer) (o : Option (Span × List Char)) (stop cursor : Nat)
    (c : Tree) (x : Except Defect Rendering) (rest : List (Tree × Except Defect Rendering)) :
    r.copyFrom o stop cursor ((c, x) :: rest) = do
      let gap ← read (r.source.slice cursor c.span.start)
      let inner ← piece o c x
      let tail ← r.copyFrom o stop c.span.stop rest
      return ⟨gap ++ inner.text ++ tail.text, inner.notices ++ tail.notices⟩ := by
  rcases o with _ | ⟨span, text⟩
  · rfl
  · rw [copyFrom]
    by_cases heq : c.span = span
    · simp only [piece, if_pos heq]
    · simp only [piece, if_neg heq]

/-- A copy of a leaf is its text, and a copy of any other node is made along its children. -/
theorem copy_cases {o : Option (Span × List Char)}
    (h : r.copy o t (t.children.map fun c => (c, f c)) = .ok rendered) :
    (t.children = [] ∧ ∃ s, r.textOf t = .ok s ∧ rendered = ⟨s, []⟩) ∨
      r.copyFrom o t.span.stop t.span.start (t.children.map fun c => (c, f c)) = .ok rendered := by
  rcases hchildren : t.children with _ | ⟨c, rest⟩
  · rw [hchildren] at h
    obtain ⟨s, hs, h⟩ := bind_eq_ok.1 h
    cases h
    exact .inl ⟨rfl, s, hs, rfl⟩
  · rw [hchildren] at h
    exact .inr h

variable {start stop : Nat}

/-- When every child of a node applies its edits, a copy of the node applies all of them. -/
theorem copyFrom_applies {o : Option (Span × List Char)} {children : List Tree} {cursor : Nat}
    {E : Tree → List Edit} (hordered : Ordered cursor stop children)
    (hpiece : ∀ c ∈ children, ∀ y, piece o c (f c) = .ok y →
      Applies r.source c.span.start c.span.stop (E c) y.text)
    (h : r.copyFrom o stop cursor (children.map fun c => (c, f c)) = .ok rendered) :
    Applies r.source cursor stop (children.flatMap E) rendered.text := by
  induction children generalizing cursor rendered with
  | nil =>
    obtain ⟨tail, htail, h⟩ := bind_eq_ok.1 h
    cases h
    exact .of_slice hordered (mapError_eq_ok.1 htail)
  | cons c rest ih =>
    obtain ⟨hstart, -, hrest⟩ := hordered
    rw [List.map_cons, copyFrom_cons] at h
    obtain ⟨gap, hgap, h⟩ := bind_eq_ok.1 h
    obtain ⟨y, hy, h⟩ := bind_eq_ok.1 h
    obtain ⟨tail, htail, h⟩ := bind_eq_ok.1 h
    cases h
    have hgap := Applies.of_slice hstart (mapError_eq_ok.1 hgap)
    have hchild := hpiece c List.mem_cons_self y hy
    have htail := ih hrest (fun d hd => hpiece d (List.mem_cons_of_mem _ hd)) htail
    exact (hgap.append hchild).append htail

/-- A replaced callee is the only child with its span, and nothing in it is edited. -/
theorem flatMap_callee_perm {callee : Tree} {edit : Edit} {sites : Tree → List Edit}
    (hordered : Ordered start stop t.children) (hmem : callee ∈ t.children)
    (hspan : callee.span.start < callee.span.stop) (hnone : sites callee = []) :
    (t.children.flatMap fun c => if c.span = callee.span then [edit] else sites c).Perm
      (edit :: t.children.flatMap sites) := by
  obtain ⟨before, after, hsplit⟩ := List.append_of_mem hmem
  rw [hsplit] at hordered ⊢
  have hne := hordered.span_ne hspan
  have hbefore : (before.flatMap fun c => if c.span = callee.span then [edit] else sites c) =
      before.flatMap sites :=
    List.flatMap_congr fun c hc => if_neg (hne c (List.mem_append_left _ hc))
  have hafter : (after.flatMap fun c => if c.span = callee.span then [edit] else sites c) =
      after.flatMap sites :=
    List.flatMap_congr fun c hc => if_neg (hne c (List.mem_append_right _ hc))
  rw [List.flatMap_append, List.flatMap_cons, hbefore, hafter, if_pos rfl, List.singleton_append,
    List.flatMap_append, List.flatMap_cons, hnone, List.nil_append]
  exact List.perm_middle

/-- When the children of a node apply their edits, so does a copy of the node. -/
theorem copy_applies (hr : r.RenamesReserved) (hnest : t.WellNested)
    (hchild : ∀ c ∈ t.children, ∀ y, f c = .ok y →
      Applies r.source c.span.start c.span.stop (r.sites (some t) c) y.text)
    (h : r.copy ((r.source.calleeEdit? t).map override) t (t.children.map fun c => (c, f c)) =
      .ok rendered) :
    Applies r.source t.span.start t.span.stop
      ((r.source.calleeEdit? t).toList ++ t.children.flatMap (r.sites (some t)))
      rendered.text := by
  have hordered := hnest.nested.ordered
  rcases copy_cases h with ⟨hleaf, s, hs, rfl⟩ | hcopy
  · have hnone : r.source.calleeEdit? t = none := by
      simp [Source.calleeEdit?, Tree.child?, hleaf]
    rw [hnone, hleaf]
    exact .of_slice hordered.le (textOf_eq_ok.1 hs)
  rcases hedit : r.source.calleeEdit? t with _ | e
  · rw [hedit] at hcopy
    refine copyFrom_applies hordered (fun c hc y hy => ?_) hcopy
    exact hchild c hc y hy
  · obtain ⟨-, callee, target, hcallee, htarget, rfl⟩ := Source.calleeEdit?_eq_some.1 hedit
    obtain ⟨hmem, -⟩ := Tree.mem_of_child? hcallee
    have hbelow := hnest.child hmem
    have hspan := span_lt_of_markers (markers_of_calleeTarget? hbelow htarget)
    have hnone : r.sites (some t) callee = [] := sites_of_calleeTarget? hr hbelow htarget
    rw [hedit] at hcopy
    refine Applies.of_perm (copyFrom_applies hordered (fun c hc y hy => ?_) hcopy)
      (flatMap_callee_perm hordered hmem hspan hnone)
    by_cases heq : c.span = callee.span
    · simp only [Option.map_some, piece, override, if_pos heq] at hy
      cases hy
      rw [if_pos heq, ← heq]
      exact .replace r.source _ (hordered.bounds hc).2.1
    · rw [if_neg heq]
      exact hchild c hc y (by simpa [piece, override, heq] using hy)

/-! ## Trees -/

theorem render_eq (r : Renderer) (t : Tree) (callee : Option Span) :
    r.render t callee =
      r.renderNode callee t (t.children.map fun c => (c, r.render c (calleeSpan t))) := by
  rw [render, Tree.fold_node, List.map_map]
  rfl

/-- Rendering a well nested tree applies the edits of its nodes to its text. -/
theorem render_applies (hr : r.RenamesReserved) (hnest : t.WellNested)
    (hlooked : r.role = .test → r.source.isLookedUp parent t = false)
    (h : r.render t (parent.bind calleeSpan) = .ok rendered) :
    Applies r.source t.span.start t.span.stop (r.sites parent t) rendered.text := by
  induction t using Tree.induct generalizing parent rendered with
  | step t ih =>
    rw [render_eq] at h
    rw [sites_eq]
    have hordered := hnest.nested.ordered
    have hway := way_of_renderNode hr hnest hlooked h
    cases hway with
    | copied hcopied hedits hkey =>
      obtain ⟨copied, hcopy, htext, -⟩ := hcopied
      rw [hedits, ← htext]
      refine copy_applies hr hnest (fun c hc y hy => ?_) hcopy
      exact ih c hc (hnest.child hc) (fun hrole => isLookedUp_of_headerKey? (hkey hrole) c) hy
    | replaced hedits hbelow hquiet =>
      rw [hedits, hbelow, List.append_nil]
      exact .replace r.source _ hordered.le
    | lookedUp hrole hkey hinner hedits =>
      rename_i key inner
      obtain ⟨-, -, hindex⟩ := Source.headerKey?_eq_some.1 hkey
      obtain ⟨hmem, -⟩ := Tree.mem_of_child? hindex
      obtain ⟨hstart, -, hstop⟩ := hordered.bounds hmem
      have hopen := Applies.replace r.source "pm.response.headers.get(".toList hstart
      have hinside := ih key hmem (hnest.child hmem) (fun _ => isLookedUp_key hnest hkey) hinner
      have hclose := Applies.replace r.source [')'] hstop
      rw [hedits, sites_of_headerKey? hr hnest hkey]
      refine Applies.of_perm ((hopen.append hinside).append hclose) ?_
      rw [List.append_assoc]
      exact List.perm_append_comm.append_left [_]

end Renderer

/-! ## Scripts -/

open Outcome (bind_eq_ok mapError_eq_ok)

variable {source : Source} {role : Role} {root : Tree}

/-- A plan renames what is found in a test script, if anything is found. -/
theorem planRename_cases {plan : Option (List Span × List Char)}
    (h : planRename source role root = .ok plan) :
    plan = none ∨ role = .test ∧ ∃ spans newName,
      declaredReferences source reservedName root = .ok spans ∧ spans ≠ [] ∧
        freeName source replacementName root = .ok newName ∧ plan = some (spans, newName) := by
  rw [planRename] at h
  by_cases hrole : role = .test
  · simp only [hrole, ne_eq, not_true_eq_false, if_false] at h
    obtain ⟨spans, hspans, h⟩ := bind_eq_ok.1 h
    split at h
    · cases h
      exact .inl rfl
    · rename_i hempty
      obtain ⟨newName, hnew, h⟩ := bind_eq_ok.1 h
      cases h
      exact .inr ⟨hrole, spans, newName, mapError_eq_ok.1 hspans, by simpa using hempty,
        mapError_eq_ok.1 hnew, rfl⟩
  · simp only [ne_eq, hrole, not_false_eq_true, if_true] at h
    cases h
    exact .inl rfl

/-- The names that a script plans to rename are all written as the reserved name. -/
theorem planRename_spell {plan : Option (List Span × List Char)}
    (h : planRename source role root = .ok plan) :
    ∀ span ∈ (plan.getD ([], [])).1, source.slice span.start span.stop = .ok reservedName := by
  rcases planRename_cases h with rfl | ⟨-, spans, newName, hspans, -, -, rfl⟩
  · simp
  · exact declaredReferences_spell hspans

/-- How a script is rendered: its names are planned by `planRename`. -/
def rendererOf (source : Source) (role : Role) (plan : Option (List Span × List Char)) :
    Renderer :=
  ⟨source, role, (plan.getD ([], [])).1, (plan.getD ([], [])).2⟩

/-- When a script with a well nested tree is rendered, its text is the script with the edits of all
nodes applied.  No two edits overlap, and all octets between them are copied in order.  The marker
line, if there is one, stands before this text. -/
theorem renderScript_edits {w : Rendered} (hnest : root.WellNested)
    (hstop : root.span.stop ≤ source.length) (h : renderScript source role root = .ok w) :
    ∃ plan edits, planRename source role root = .ok plan ∧
      edits.Perm ((rendererOf source role plan).sites none root) ∧
      Fits 0 source.length edits ∧
      (edits.Pairwise fun e e' => e.span.stop ≤ e'.span.start) ∧
      Text.Utf8.encode w.text = splice source 0 source.length edits ∧
      w.conversion.lines = (if w.notices = [] then [] else [partialMarker]) ++
        Text.lineStrings w.text := by
  obtain ⟨plan, hplan, h⟩ := bind_eq_ok.1 h
  obtain ⟨head, hhead, h⟩ := bind_eq_ok.1 h
  obtain ⟨body, hbody, h⟩ := bind_eq_ok.1 h
  obtain ⟨tail, htail, h⟩ := bind_eq_ok.1 h
  cases h
  have hr : (rendererOf source role plan).RenamesReserved := planRename_spell hplan
  have hbefore := Applies.of_slice (Nat.zero_le _) (mapError_eq_ok.1 hhead)
  have hinside : Applies source root.span.start root.span.stop
      ((rendererOf source role plan).sites none root) body.text :=
    Renderer.render_applies hr hnest (fun _ => rfl) hbody
  have hafter := Applies.of_slice hstop (mapError_eq_ok.1 htail)
  obtain ⟨edits, hedits, hperm⟩ := (hbefore.append hinside).append hafter
  rw [List.nil_append, List.append_nil] at hperm
  refine ⟨plan, edits, hplan, hperm, hedits.fits, hedits.fits.pairwise, hedits.encode_eq, ?_⟩
  rw [Rendered.conversion]
  rcases hnotices : body.notices with _ | ⟨notice, rest⟩
  · rfl
  · rfl

/-- A test that looks up a header under a property of the response. -/
def lookupScript : Source := Text.Utf8.encode "test(res.headers[res.status])".toList

/-- The tree of `lookupScript`. -/
def lookupTree : Tree :=
  .node { kind := .callExpression, span := ⟨0, 29⟩ } [
    .node { kind := .identifier, span := ⟨0, 4⟩, field := some .function } [],
    .node { kind := .other "arguments", span := ⟨4, 29⟩ } [
      .node { kind := .other "(", span := ⟨4, 5⟩ } [],
      .node { kind := .subscriptExpression, span := ⟨5, 28⟩ } [
        .node { kind := .memberExpression, span := ⟨5, 16⟩, field := some .object } [
          .node { kind := .identifier, span := ⟨5, 8⟩, field := some .object } [],
          .node { kind := .other ".", span := ⟨8, 9⟩ } [],
          .node { kind := .propertyIdentifier, span := ⟨9, 16⟩, field := some .property } []],
        .node { kind := .other "[", span := ⟨16, 17⟩ } [],
        .node { kind := .memberExpression, span := ⟨17, 27⟩, field := some .index } [
          .node { kind := .identifier, span := ⟨17, 20⟩, field := some .object } [],
          .node { kind := .other ".", span := ⟨20, 21⟩ } [],
          .node { kind := .propertyIdentifier, span := ⟨21, 27⟩, field := some .property } []],
        .node { kind := .other "]", span := ⟨27, 28⟩ } []],
      .node { kind := .other ")", span := ⟨28, 29⟩ } []]]

/-- What `lookupScript` is rendered as. -/
def lookupResult : Rendered :=
  ⟨"pm.test(pm.response.headers.get(pm.response.code))".toList, [], none⟩

theorem renderScript_edits_lookup :
    lookupTree.WellNested ∧ ∃ plan edits, planRename lookupScript .test lookupTree = .ok plan ∧
      edits.Perm ((rendererOf lookupScript .test plan).sites none lookupTree) ∧
      Fits 0 29 edits ∧
      (edits.Pairwise fun e e' => e.span.stop ≤ e'.span.start) ∧
      Text.Utf8.encode lookupResult.text = splice lookupScript 0 29 edits ∧
      lookupResult.conversion.lines = Text.lineStrings lookupResult.text := by
  have hnest : lookupTree.WellNested := by decide +kernel
  have hrender : renderScript lookupScript .test lookupTree = .ok lookupResult := by
    decide +kernel
  have hlength : lookupScript.length = 29 := by decide +kernel
  have hstop : lookupTree.span.stop ≤ lookupScript.length := by
    rw [hlength]
    decide
  obtain ⟨plan, edits, hplan, hperm, hfits, hpairwise, htext, hlines⟩ :=
    renderScript_edits hnest hstop hrender
  rw [hlength] at hfits htext
  exact ⟨hnest, plan, edits, hplan, hperm, hfits, hpairwise, htext, hlines⟩

end Courier.Script
