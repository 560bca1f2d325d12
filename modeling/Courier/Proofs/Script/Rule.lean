import Courier.Proofs.Script.Unmapped
import Mathlib.Tactic.Common

/-!
# What the rules do

A node is rendered in one of three ways, and `Renderer.Way` says what its edits are in each:

* `copied`: the node is copied, with the edit of its callee if it has one, and the notice that is
  due for the node is given;
* `replaced`: one edit replaces the node, nothing below it is edited, and no notice is due for it or
  for anything below it;
* `lookedUp`: the key of a look-up is put into a new call.

`way_of_renderNode` finds the way of every node whose rendering succeeds.  Before it stand one lemma
for each rule, and for each question that a rule asks of a node the answer in terms of its text.
-/

namespace Courier.Script

namespace Renderer

open Outcome (bind_eq_ok mapError_eq_ok)

variable {r : Renderer} {parent : Option Tree} {t : Tree} {rendered : Rendering}

/-! ## Questions about nodes -/

theorem textOf_eq_ok {s : List Char} : r.textOf t = .ok s ↔ r.source.textOf t = .ok s :=
  mapError_eq_ok

theorem text?_of_textOf {s : List Char} (h : r.textOf t = .ok s) :
    r.source.text? t = some (String.ofList s) := by
  rw [Source.text?_eq_some, String.toList_ofList]
  exact textOf_eq_ok.1 h

theorem word?_of_textOf {s : List Char} {kind : Kind} (hkind : t.kind = kind)
    (h : r.textOf t = .ok s) : r.source.word? kind (some t) = some (String.ofList s) := by
  rw [Source.word?_eq_some, String.toList_ofList]
  exact ⟨t, rfl, hkind, textOf_eq_ok.1 h⟩

theorem isIdentifier_eq_ok {name : String} {o : Option Tree} {b : Bool}
    (h : r.isIdentifier name o = .ok b) :
    b = true ↔ r.source.word? .identifier o = some name := by
  rcases o with _ | t
  · cases h
    simp [Source.word?]
  · rw [isIdentifier] at h
    split at h
    · rename_i hkind
      obtain ⟨s, hs, h⟩ := bind_eq_ok.1 h
      cases h
      rw [word?_of_textOf hkind hs, Option.some_inj, beq_iff_eq, ← String.toList_inj,
        String.toList_ofList]
    · rename_i hkind
      cases h
      simp [Source.word?_some, hkind]

/-- An access has the form that `isAccess` asks for. -/
theorem isAccess_eq_ok {objectName propertyName : String} {b : Bool}
    (h : r.isAccess objectName propertyName (some t) = .ok b) :
    b = true ↔ t.kind = .memberExpression ∧
      r.source.word? .identifier (t.child? .object) = some objectName ∧
      (t.child? .property).bind r.source.text? = some propertyName := by
  rw [isAccess] at h
  split at h
  · rename_i hkind
    cases h
    simp [hkind]
  · rename_i hkind
    obtain ⟨isObject, hobject, h⟩ := bind_eq_ok.1 h
    rw [← isIdentifier_eq_ok hobject]
    rcases isObject with _ | _
    · cases h
      simp
    · rcases hproperty : t.child? .property with _ | property
      · rw [hproperty] at h
        cases h
      · rw [hproperty] at h
        obtain ⟨s, hs, h⟩ := bind_eq_ok.1 h
        cases h
        rw [Option.bind_some, text?_of_textOf hs, Option.some_inj, beq_iff_eq,
          ← String.toList_inj, String.toList_ofList]
        have hkind : t.kind = .memberExpression := by simpa using hkind
        simp [hkind]

theorem propertyOf?_of_isIdentifier {objectName : String} {b : Bool}
    (hkind : t.kind = .memberExpression)
    (h : r.isIdentifier objectName (t.child? .object) = .ok b) :
    r.source.propertyOf? objectName t =
      if b then r.source.word? .propertyIdentifier (t.child? .property) else none := by
  have hobject := isIdentifier_eq_ok h
  rw [Source.propertyOf?]
  rcases b with _ | _
  · exact if_neg fun hcond => by simpa using hobject.2 hcond.2
  · exact if_pos ⟨hkind, hobject.1 rfl⟩

/-! ## Rules -/

variable {results : List (Tree × Except Defect Rendering)}

/-- The edit as a copy is told of it. -/
def override (e : Edit) : Span × List Char := (e.span, e.text)

/-- A node is copied, and the notice that is due for it comes before those of the copy. -/
def Copied (r : Renderer) (edit : Option (Span × List Char)) (notice : Option Notice) (t : Tree)
    (results : List (Tree × Except Defect Rendering)) (rendered : Rendering) : Prop :=
  ∃ copied, r.copy edit t results = .ok copied ∧ copied.text = rendered.text ∧
    rendered.notices = notice.toList ++ copied.notices

variable {edit : Option (Span × List Char)}

theorem copied_of_copy (h : r.copy edit t results = .ok rendered) :
    r.Copied edit none t results rendered := ⟨rendered, h, rfl, rfl⟩

theorem copied_of_noting {notice : Notice}
    (h : noting notice (r.copy edit t results) = .ok rendered) :
    r.Copied edit (some notice) t results rendered := by
  obtain ⟨copied, hcopied, h⟩ := bind_eq_ok.1 h
  cases h
  exact ⟨copied, hcopied, rfl, rfl⟩

theorem calleeTarget?_of_identifier {s : List Char} (hkind : t.kind = .identifier)
    (h : r.textOf t = .ok s) :
    r.source.calleeTarget? t = bareCalls.lookup (String.ofList s) := by
  have hother : r.source.propertyOf? "bru" t = none := by
    simp [Source.propertyOf?, hkind]
  rw [Source.calleeTarget?, word?_of_textOf hkind h, hother, Option.bind_some, Option.bind_none,
    Option.or_none]

theorem calleeTarget?_of_ne (hkind : t.kind ≠ .identifier) :
    r.source.calleeTarget? t = (r.source.propertyOf? "bru" t).bind (variableCalls.lookup ·) := by
  rw [Source.calleeTarget?, Source.word?_some, if_neg hkind, Option.bind_none, Option.none_or]

theorem calleeTarget?_of_object (hkind : t.kind = .memberExpression)
    (h : r.source.word? .identifier (t.child? .object) ≠ some "bru") :
    r.source.calleeTarget? t = none := by
  have hnone : r.source.propertyOf? "bru" t = none := if_neg fun hcond => h hcond.2
  rw [calleeTarget?_of_ne (by simp [hkind]), hnone, Option.bind_none]

/-- What a call copies and notes depends on its callee alone. -/
theorem calleeEdit?_of_child {callee : Tree} {target? : Option String}
    (hkind : t.kind = .callExpression) (hchild : t.child? .function = some callee)
    (htarget : r.source.calleeTarget? callee = target?) :
    (r.source.calleeEdit? t).map override =
      target?.map fun target => (callee.span, target.toList) := by
  rw [Source.calleeEdit?, if_pos hkind, hchild, Option.bind_some, htarget, Option.map_map]
  rfl

theorem notice?_of_call (hkind : t.kind = .callExpression) :
    r.source.notice? r.role t = (t.child? .function).bind r.source.calleeNotice? := by
  rw [Source.notice?, hkind]

/-- A call is copied with the edit of its callee, and gives notice of a callee without
replacement. -/
theorem renderCall_eq_ok (hkind : t.kind = .callExpression)
    (h : r.renderCall t results = .ok rendered) :
    r.Copied ((r.source.calleeEdit? t).map override) (r.source.notice? r.role t) t results
      rendered := by
  rw [renderCall] at h
  rw [notice?_of_call hkind]
  rcases hchild : t.child? .function with _ | callee
  · rw [hchild] at h
    rw [Source.calleeEdit?, if_pos hkind, hchild]
    exact copied_of_copy h
  rw [hchild] at h
  rw [Option.bind_some]
  by_cases hmember : callee.kind = .memberExpression
  swap
  · rw [Source.calleeNotice?_of_not_member hmember]
    by_cases hident : callee.kind = .identifier
    · obtain ⟨s, hs, h⟩ := bind_eq_ok.1 (by simpa only [hident, if_true] using h)
      rw [calleeEdit?_of_child hkind hchild (calleeTarget?_of_identifier hident hs)]
      rcases hlookup : bareCalls.lookup (String.ofList s) with _ | target
      · rw [hlookup] at h
        exact copied_of_copy h
      · rw [hlookup] at h
        exact copied_of_copy h
    · rw [calleeEdit?_of_child hkind hchild (calleeTarget?_of_ne hident), Source.propertyOf?,
        if_neg fun hcond => hmember hcond.1]
      exact copied_of_copy (by simpa [hident, hmember] using h)
  simp only [hmember, reduceCtorEq, if_false, ne_eq, not_true_eq_false] at h
  obtain ⟨isBru, hbru, h⟩ := bind_eq_ok.1 h
  have hobject := isIdentifier_eq_ok hbru
  rcases isBru with _ | _
  · -- A longer chain that begins with `bru` is copied, and so is any other callee.
    have hobject : r.source.word? .identifier (callee.child? .object) ≠ some "bru" := by
      simpa using hobject
    rw [calleeEdit?_of_child hkind hchild (calleeTarget?_of_object hmember hobject),
      Source.calleeNotice?_of_chain hmember hobject]
    obtain ⟨isRooted, hrooted, h⟩ := bind_eq_ok.1 h
    have hrooted := (isIdentifier_eq_ok hrooted).trans Source.isSome_chainLength?_iff.symm
    rcases isRooted with _ | _
    · rw [if_neg (by simpa using hrooted)]
      exact copied_of_copy h
    · obtain ⟨s, hs, h⟩ := bind_eq_ok.1 h
      rw [if_pos (hrooted.1 rfl), text?_of_textOf hs, Option.map_some, String.toList_ofList]
      exact copied_of_noting h
  · -- A method of `bru` is replaced or noted.
    rw [calleeEdit?_of_child hkind hchild (calleeTarget?_of_ne (by simp [hmember])),
      Source.calleeNotice?_of_object hmember (hobject.1 rfl),
      propertyOf?_of_isIdentifier hmember hbru, if_pos rfl]
    rcases hproperty : callee.child? .property with _ | property
    · rw [hproperty] at h
      exact copied_of_copy h
    · rw [hproperty] at h
      by_cases hpropertyKind : property.kind = .propertyIdentifier
      · obtain ⟨s, hs, h⟩ := bind_eq_ok.1 (by simpa only [hpropertyKind, ne_eq, not_true_eq_false,
          if_false, if_true] using h)
        rw [word?_of_textOf hpropertyKind hs, Option.bind_some, Option.bind_some]
        rcases hlookup : variableCalls.lookup (String.ofList s) with _ | target
        · rw [hlookup] at h
          rw [if_pos rfl, String.toList_ofList]
          exact copied_of_noting h
        · rw [hlookup] at h
          exact copied_of_copy h
      · rw [Source.word?_some, if_neg hpropertyKind]
        exact copied_of_copy (by simpa [hpropertyKind] using h)

theorem notice?_of_member (hkind : t.kind = .memberExpression) :
    r.source.notice? r.role t =
      if r.role = .test then r.source.propertyNotice? t else none := by
  rw [Source.notice?, hkind]

/-- An access to a member is copied, or replaced in a test script when its property is known.  Where
a test script accesses any other property of the response, it gives notice. -/
theorem renderMember_eq_ok {isCallee : Bool} (hkind : t.kind = .memberExpression)
    (h : r.renderMember isCallee t results = .ok rendered) :
    (r.Copied none (r.source.notice? r.role t) t results rendered ∧
      (r.role = .test → r.source.responseAccess? t = none)) ∨
    (r.role = .test ∧ ∃ access, r.source.responseAccess? t = some access ∧
      rendered = ⟨(if isCallee then access.path else access.text).toList, []⟩) := by
  rw [renderMember] at h
  rw [notice?_of_member hkind]
  by_cases hrole : r.role = .test
  · simp only [hrole, ne_eq, not_true_eq_false, if_false] at h
    obtain ⟨isRes, hres, h⟩ := bind_eq_ok.1 h
    rw [if_pos hrole, Source.propertyNotice?, Source.responseAccess?,
      propertyOf?_of_isIdentifier hkind hres]
    rcases isRes with _ | _
    · exact .inl ⟨copied_of_copy h, fun _ => rfl⟩
    rw [if_pos rfl]
    rcases hchild : t.child? .property with _ | property
    · rw [hchild] at h
      exact .inl ⟨copied_of_copy h, fun _ => rfl⟩
    rw [hchild] at h
    by_cases hproperty : property.kind = .propertyIdentifier
    · obtain ⟨s, hs, h⟩ := bind_eq_ok.1 (by simpa [hproperty] using h)
      rw [word?_of_textOf hproperty hs, Option.bind_some, Option.bind_some]
      rcases hlookup : responseAccesses.lookup (String.ofList s) with _ | access
      · rw [hlookup] at h
        rw [if_pos rfl, String.toList_ofList]
        exact .inl ⟨copied_of_noting h, fun _ => rfl⟩
      · rw [hlookup] at h
        cases h
        exact .inr ⟨hrole, access, rfl, rfl⟩
    · rw [Source.word?_some, if_neg hproperty]
      exact .inl ⟨copied_of_copy (by simpa [hproperty] using h), fun _ => rfl⟩
  · rw [if_neg hrole]
    exact .inl ⟨copied_of_copy (by simpa [hrole] using h), fun h => absurd h hrole⟩

theorem isResponse_of_isAccess {o : Option Tree} {b : Bool}
    (h : r.isAccess "pm" "response" o = .ok b) : b = true ↔ o.any r.source.isResponse = true := by
  rcases o with _ | t
  · cases h
    simp
  · rw [isAccess_eq_ok h, Option.any_some, Source.isResponse, decide_eq_true_iff]

/-- The two questions of `renderSubscript` find out whether a node accesses the headers. -/
theorem isHeaders_of_isAccess {ofResponse : Bool} {property : Tree} {s : List Char}
    (hkind : t.kind = .memberExpression)
    (hresponse : r.isAccess "res" "headers" (some t) = .ok ofResponse)
    (hproperty : t.child? .property = some property) (hs : r.textOf property = .ok s)
    ⦃ofSandbox : Bool⦄
    (hsandbox : (if (s == "headers".toList) = true then
      r.isAccess "pm" "response" (t.child? .object) else pure false) = .ok ofSandbox) :
    (ofResponse || ofSandbox) = r.source.isHeaders t := by
  have hresponse := isAccess_eq_ok hresponse
  have htext : (t.child? .property).bind r.source.text? = some (String.ofList s) := by
    rw [hproperty, Option.bind_some, text?_of_textOf hs]
  have hname : (t.child? .property).bind r.source.text? = some "headers" ↔
      s = "headers".toList := by
    rw [htext, Option.some_inj, ← String.toList_inj, String.toList_ofList]
  rw [Bool.eq_iff_iff, Bool.or_eq_true, Source.isHeaders, decide_eq_true_iff, hresponse]
  by_cases hheaders : s = "headers".toList
  · rw [if_pos (by simpa using hheaders)] at hsandbox
    rw [isResponse_of_isAccess hsandbox]
    simp only [hkind, hname.2 hheaders, true_and, and_true]
  · rw [if_neg (by simpa using hheaders)] at hsandbox
    cases hsandbox
    simp only [hname, hheaders, false_and, and_false, Bool.false_eq_true, or_self]

/-- A subscript is copied, or becomes a call around its key in a test script when it looks up a
header. -/
theorem renderSubscript_eq_ok {f : Tree → Except Defect Rendering}
    (hkind : t.kind = .subscriptExpression)
    (h : r.renderSubscript t (t.children.map fun c => (c, f c)) = .ok rendered) :
    (r.copy none t (t.children.map fun c => (c, f c)) = .ok rendered ∧
      (r.role = .test → r.source.headerKey? t = none)) ∨
    (r.role = .test ∧ ∃ key inner, r.source.headerKey? t = some key ∧ f key = .ok inner ∧
      rendered =
        ⟨"pm.response.headers.get(".toList ++ inner.text ++ [')'], inner.notices⟩) := by
  rw [renderSubscript, pick?_map] at h
  by_cases hrole : r.role = .test
  swap
  · exact .inl ⟨by simpa [hrole] using h, fun h => absurd h hrole⟩
  simp only [hrole, ne_eq, not_true_eq_false, if_false] at h
  rw [Source.headerKey?]
  rcases hobject : t.child? .object with _ | object
  · rw [hobject] at h
    exact .inl ⟨h, fun _ => by simp⟩
  rcases hindex : t.child? .index with _ | key
  · rw [hobject, hindex] at h
    exact .inl ⟨h, fun _ => by simp⟩
  rw [hobject, hindex] at h
  by_cases hmember : object.kind = .memberExpression
  swap
  · have hother : r.source.isHeaders object = false := by simp [Source.isHeaders, hmember]
    exact .inl ⟨by simpa [hmember] using h, fun _ => by simp [hother]⟩
  simp only [hmember, Option.map_some, not_true_eq_false, if_false] at h
  obtain ⟨ofResponse, hresponse, h⟩ := bind_eq_ok.1 h
  rcases hproperty : object.child? .property with _ | property
  · rw [hproperty] at h
    cases h
  rw [hproperty] at h
  obtain ⟨s, hs, h⟩ := bind_eq_ok.1 h
  replace h : (if r.source.isHeaders object = true then do
        let inner ← f key
        return ⟨"pm.response.headers.get(".toList ++ inner.text ++ [')'], inner.notices⟩
      else r.copy none t (t.children.map fun c => (c, f c))) = .ok rendered := by
    have hheaders := isHeaders_of_isAccess hmember hresponse hproperty hs
    split at h
    · rename_i hcond
      obtain ⟨ofSandbox, hsandbox, h⟩ := bind_eq_ok.1 h
      rwa [hheaders (by rw [if_pos hcond, hsandbox])] at h
    · rename_i hcond
      obtain ⟨ofSandbox, hsandbox, h⟩ := bind_eq_ok.1 h
      rwa [hheaders (by rw [if_neg hcond, hsandbox])] at h
  rcases hlookup : r.source.isHeaders object with _ | _
  · rw [hlookup] at h
    exact .inl ⟨h, fun _ => by simp [hlookup]⟩
  · rw [hlookup] at h
    obtain ⟨inner, hinner, h⟩ := bind_eq_ok.1 h
    cases h
    exact .inr ⟨hrole, key, inner, by simp [hkind, hlookup], hinner, rfl⟩

/-- A name is copied or replaced. -/
theorem renderName_eq_ok (hr : r.RenamesReserved) (h : r.renderName t results = .ok rendered) :
    (t.span ∉ r.renamed ∧ r.copy none t results = .ok rendered) ∨
    (t.span ∈ r.renamed ∧ rendered = ⟨if t.kind = .identifier then r.newName
      else reservedName ++ ": ".toList ++ r.newName, []⟩) := by
  rw [renderName] at h
  by_cases hmem : t.span ∈ r.renamed
  · rw [if_pos hmem] at h
    refine .inr ⟨hmem, ?_⟩
    by_cases hkind : t.kind = .identifier
    · rw [if_pos hkind] at h
      cases h
      rw [if_pos hkind]
    · rw [if_neg hkind] at h
      obtain ⟨s, hs, h⟩ := bind_eq_ok.1 h
      cases h
      cases (hr _ hmem).symm.trans (textOf_eq_ok.1 hs)
      rw [if_neg hkind]
  · exact .inl ⟨hmem, by rwa [if_neg hmem] at h⟩

/-! ## One node -/

/-- The ways in which a node is rendered: it is copied with the edit of its callee and the notice
that is due for it, it is replaced as a whole, or its key is put into a call.  Each says what the
edits of the node are. -/
inductive Way (r : Renderer) (parent : Option Tree) (t : Tree)
    (f : Tree → Except Defect Rendering) : Rendering → Prop
  | copied {rendered : Rendering}
    (hcopied : r.Copied ((r.source.calleeEdit? t).map override) (r.source.notice? r.role t) t
      (t.children.map fun c => (c, f c)) rendered)
    (hedits : r.editsAt parent t = (r.source.calleeEdit? t).toList)
    (hkey : r.role = .test → r.source.headerKey? t = none) : Way r parent t f rendered
  | replaced {text : List Char} (hedits : r.editsAt parent t = [⟨t.span, text⟩])
    (hbelow : t.children.flatMap (r.sites (some t)) = [])
    (hquiet : r.source.Quiet r.role t) : Way r parent t f ⟨text, []⟩
  | lookedUp {key : Tree} {inner : Rendering} (hrole : r.role = .test)
    (hkey : r.source.headerKey? t = some key) (hinner : f key = .ok inner)
    (hedits : r.editsAt parent t =
      [⟨⟨t.span.start, key.span.start⟩, "pm.response.headers.get(".toList⟩,
        ⟨⟨key.span.stop, t.span.stop⟩, [')']⟩]) :
    Way r parent t f ⟨"pm.response.headers.get(".toList ++ inner.text ++ [')'], inner.notices⟩

variable {f : Tree → Except Defect Rendering}

theorem way_of_copied (hcall : t.kind ≠ .callExpression)
    (hcopied : r.Copied none (r.source.notice? r.role t) t (t.children.map fun c => (c, f c))
      rendered)
    (hedits : r.editsAt parent t = []) (hkey : r.role = .test → r.source.headerKey? t = none) :
    r.Way parent t f rendered := by
  have hnone : r.source.calleeEdit? t = none := if_neg hcall
  exact .copied (by rwa [hnone]) (by rw [hedits, hnone]; rfl) hkey

theorem notice?_of_other (hcall : t.kind ≠ .callExpression) (hmember : t.kind ≠ .memberExpression) :
    r.source.notice? r.role t = none := by
  rw [Source.notice?]
  split
  · contradiction
  · contradiction
  · rfl

theorem way_of_copy (hcall : t.kind ≠ .callExpression) (hmember : t.kind ≠ .memberExpression)
    (hcopy : r.copy none t (t.children.map fun c => (c, f c)) = .ok rendered)
    (hedits : r.editsAt parent t = []) (hkey : r.role = .test → r.source.headerKey? t = none) :
    r.Way parent t f rendered :=
  way_of_copied hcall (by rw [notice?_of_other hcall hmember]; exact copied_of_copy hcopy) hedits
    hkey

theorem way_of_renderName (hr : r.RenamesReserved) (hnest : t.WellNested)
    (hname : t.kind.isName = true)
    (hedits : r.editsAt parent t = if t.span ∈ r.renamed then
      [⟨t.span, if t.kind = .identifier then r.newName
        else reservedName ++ ": ".toList ++ r.newName⟩] else [])
    (h : r.renderName t (t.children.map fun c => (c, f c)) = .ok rendered) :
    r.Way parent t f rendered := by
  have hother (kind : Kind) (hkind : kind.isName = false) : t.kind ≠ kind := by
    rintro rfl
    simp [hkind] at hname
  have hleaf := hnest.nested.leaf (.inl hname)
  rcases renderName_eq_ok hr h with ⟨hmem, hcopy⟩ | ⟨hmem, rfl⟩
  · rw [if_neg hmem] at hedits
    exact way_of_copy (hother _ rfl) (hother _ rfl) hcopy hedits fun _ =>
      if_neg fun hcond => hother _ rfl hcond.1
  · rw [if_pos hmem] at hedits
    exact .replaced hedits (by rw [hleaf, List.flatMap_nil]) (Source.quiet_of_leaf hleaf)

/-- A node is called when it has the span of the callee. -/
theorem isCalled_eq (t : Tree) (parent : Option Tree) :
    t.isCalled parent = (parent.bind calleeSpan == some t.span) := by
  rcases parent with _ | p
  · rfl
  · rw [Tree.isCalled, Option.any_some, Option.bind_some, calleeSpan]
    by_cases hkind : p.kind = .callExpression
    · simp [hkind]
    · simp [hkind]

theorem way_of_renderNode (hr : r.RenamesReserved) (hnest : t.WellNested)
    (hlooked : r.role = .test → r.source.isLookedUp parent t = false)
    (h : r.renderNode (parent.bind calleeSpan) t (t.children.map fun c => (c, f c)) =
      .ok rendered) : r.Way parent t f rendered := by
  have hkey (hkind : t.kind ≠ .subscriptExpression) : r.source.headerKey? t = none :=
    if_neg fun hcond => hkind hcond.1
  rw [renderNode] at h
  split at h
  case h_1 hkind =>
    exact .copied (renderCall_eq_ok hkind h) (by simp only [editsAt, hkind])
      fun _ => hkey (by simp [hkind])
  case h_2 hkind =>
    rcases renderMember_eq_ok hkind h with ⟨hcopied, hnone⟩ | ⟨hrole, access, haccess, rfl⟩
    · refine way_of_copied (by simp [hkind]) hcopied ?_ fun _ => hkey (by simp [hkind])
      simp only [editsAt, hkind]
      split
      · rename_i hcond
        rw [hnone hcond.1]
        rfl
      · rfl
    · refine .replaced ?_ ?_ (Source.quiet_of_responseAccess? hnest haccess)
      · simp only [editsAt, hkind, if_pos (And.intro hrole (hlooked hrole)), haccess,
          isCalled_eq, Option.map_some, Option.toList_some]
      · obtain ⟨name, hname, -⟩ := Option.bind_eq_some_iff.1 haccess
        exact sites_of_propertyOf? hr hnest hname (by decide)
  case h_3 hkind =>
    rcases renderSubscript_eq_ok hkind h with ⟨hcopy, hnone⟩ |
      ⟨hrole, key, inner, hkey, hinner, rfl⟩
    · refine way_of_copy (by simp [hkind]) (by simp [hkind]) hcopy ?_ hnone
      simp only [editsAt, hkind]
      split
      · rfl
      · rename_i hcond
        split at hcond
        · rename_i hrole
          rw [hnone hrole] at hcond
          cases hcond
        · cases hcond
    · exact .lookedUp hrole hkey hinner (by simp only [editsAt, hkind, hrole, if_true, hkey])
  case h_4 hkind =>
    exact way_of_renderName hr hnest (by rw [hkind]; rfl) (by simp only [editsAt, hkind, if_true]) h
  case h_5 hkind =>
    exact way_of_renderName hr hnest (by rw [hkind]; rfl) (by simp [editsAt, hkind]) h
  case h_6 hkind =>
    exact way_of_renderName hr hnest (by rw [hkind]; rfl) (by simp [editsAt, hkind]) h
  case h_7 =>
    refine way_of_copy (by assumption) (by assumption) h ?_ fun _ => hkey (by assumption)
    rw [editsAt]
    split <;> first | rfl | contradiction

end Renderer

end Courier.Script
