import Courier.Proofs.Script.Edit
import Courier.Proofs.Script.Nesting
import Courier.Script.Rendering
import Mathlib.Tactic.Common

/-!
# Where a script is edited

`Renderer.editsAt` says which edits one node of a script calls for, by its kind:

* a call of a known function: its callee is replaced;
* in a test script, a known property of `res`: the whole access is replaced, unless the headers of
  the response are accessed to look up one of them;
* in a test script, a look-up in the headers of the response: what stands before and after the key
  is replaced;
* a name that is to be renamed: the new name takes its place, in a shorthand after the old one.

`Renderer.sites` collects the edits of all nodes of a tree.  Neither definition says how a tree is
rendered.  Parts of a tree that are dropped in the course of a replacement call for no edits.  This
is shown for leaves, then for nodes whose text holds none of the words an edit needs
(`sites_of_textOf`), and from both for the parts of accesses and look-ups.
-/

namespace Courier.Script

open Text.Utf8 (encode)

/-- Whether a node is what the node around it calls.  A node is known among its siblings by its
span. -/
def Tree.isCalled (t : Tree) (parent : Option Tree) : Bool :=
  parent.any fun p =>
    p.kind == .callExpression && (p.child? .function).map Tree.span == some t.span

namespace Source

variable (source : Source)

/-- The text of a node, unless its span cuts through a character. -/
def text? (t : Tree) : Option String := (source.textOf t).toOption.map String.ofList

/-- The text of a node of the given kind. -/
def word? (kind : Kind) (t : Option Tree) : Option String :=
  (t.filter (·.kind == kind)).bind source.text?

/-- The name of the property in an access of the form `objectName.property`. -/
def propertyOf? (objectName : String) (t : Tree) : Option String :=
  if t.kind = .memberExpression ∧ source.word? .identifier (t.child? .object) = some objectName then
    source.word? .propertyIdentifier (t.child? .property)
  else none

/-- What stands for a node when it is called. -/
def calleeTarget? (t : Tree) : Option String :=
  ((source.word? .identifier (some t)).bind (bareCalls.lookup ·)).or
    ((source.propertyOf? "bru" t).bind (variableCalls.lookup ·))

/-- The edit that a call makes to its callee. -/
def calleeEdit? (t : Tree) : Option Edit :=
  if t.kind = .callExpression then
    (t.child? .function).bind fun callee =>
      (source.calleeTarget? callee).map fun target => ⟨callee.span, target.toList⟩
  else none

/-- What stands for a node that accesses a property of the response. -/
def responseAccess? (t : Tree) : Option ResponseAccess :=
  (source.propertyOf? "res" t).bind (responseAccesses.lookup ·)

/-- Whether a node is the access `pm.response`. -/
def isResponse (t : Tree) : Bool :=
  t.kind = .memberExpression ∧ source.word? .identifier (t.child? .object) = some "pm" ∧
    (t.child? .property).bind source.text? = some "response"

/-- Whether a node accesses the headers of the response, under the old name or the new one. -/
def isHeaders (t : Tree) : Bool :=
  t.kind = .memberExpression ∧ (t.child? .property).bind source.text? = some "headers" ∧
    (source.word? .identifier (t.child? .object) = some "res" ∨
      (t.child? .object).any source.isResponse)

/-- The key of a look-up in the headers of the response. -/
def headerKey? (t : Tree) : Option Tree :=
  if t.kind = .subscriptExpression ∧ (t.child? .object).any source.isHeaders then t.child? .index
  else none

/-- Whether a node stands for the headers in the look-up around it. -/
def isLookedUp (parent : Option Tree) (t : Tree) : Bool :=
  parent.any fun p =>
    (source.headerKey? p).isSome && (p.child? .object).map Tree.span == some t.span

end Source

namespace Renderer

variable (r : Renderer)

/-- The edits that one node calls for, given the node around it. -/
def editsAt (parent : Option Tree) (t : Tree) : List Edit :=
  match t.kind with
  | .callExpression => (r.source.calleeEdit? t).toList
  | .memberExpression =>
    if r.role = .test ∧ r.source.isLookedUp parent t = false then
      ((r.source.responseAccess? t).map fun access =>
        ⟨t.span, (if t.isCalled parent then access.path else access.text).toList⟩).toList
    else []
  | .subscriptExpression =>
    match if r.role = .test then r.source.headerKey? t else none with
    | none => []
    | some key => [⟨⟨t.span.start, key.span.start⟩, "pm.response.headers.get(".toList⟩,
        ⟨⟨key.span.stop, t.span.stop⟩, [')']⟩]
  | .identifier => if t.span ∈ r.renamed then [⟨t.span, r.newName⟩] else []
  | .shorthandProperty | .shorthandPropertyPattern =>
    if t.span ∈ r.renamed then [⟨t.span, reservedName ++ ": ".toList ++ r.newName⟩] else []
  | _ => []

/-- The edits that all nodes of a tree call for, given the node around the tree. -/
def sites (parent : Option Tree) (t : Tree) : List Edit :=
  (t.withParents parent).flatMap fun (above, u) => r.editsAt above u

theorem sites_eq (parent : Option Tree) (t : Tree) :
    r.sites parent t = r.editsAt parent t ++ t.children.flatMap (r.sites (some t)) := by
  rw [sites, Tree.withParents_eq, List.flatMap_cons, List.flatMap_assoc]
  rfl

end Renderer

/-! ## Texts -/

namespace Source

variable {source : Source} {t : Tree} {w : String}

theorem text?_eq_some : source.text? t = some w ↔ source.textOf t = .ok w.toList := by
  rw [text?]
  rcases source.textOf t with e | s
  · simp [Except.toOption]
  · simp [Except.toOption, ← String.toList_inj]

@[simp] theorem word?_none (kind : Kind) : source.word? kind none = none := rfl

theorem word?_some (kind : Kind) (t : Tree) :
    source.word? kind (some t) = if t.kind = kind then source.text? t else none := by
  rw [word?, Option.filter_some]
  by_cases hkind : t.kind = kind
  · rw [if_pos hkind, if_pos (by simpa using hkind), Option.bind_some]
  · rw [if_neg hkind, if_neg (by simpa using hkind), Option.bind_none]

theorem word?_eq_some {kind : Kind} {o : Option Tree} : source.word? kind o = some w ↔
    ∃ t, o = some t ∧ t.kind = kind ∧ source.textOf t = .ok w.toList := by
  rw [word?, Option.bind_eq_some_iff]
  simp only [Option.filter_eq_some_iff, beq_iff_eq, text?_eq_some, and_assoc]

theorem propertyOf?_eq_some {objectName : String} :
    source.propertyOf? objectName t = some w ↔ t.kind = .memberExpression ∧
      source.word? .identifier (t.child? .object) = some objectName ∧
      source.word? .propertyIdentifier (t.child? .property) = some w := by
  rw [propertyOf?]
  split
  · rename_i h
    simp [h]
  · rename_i h
    simp only [reduceCtorEq, false_iff]
    rintro ⟨hkind, hobject, -⟩
    exact h ⟨hkind, hobject⟩

theorem calleeEdit?_eq_some {e : Edit} : source.calleeEdit? t = some e ↔
    t.kind = .callExpression ∧ ∃ callee target, t.child? .function = some callee ∧
      source.calleeTarget? callee = some target ∧ e = ⟨callee.span, target.toList⟩ := by
  rw [calleeEdit?]
  split
  · rename_i h
    simp only [Option.bind_eq_some_iff, Option.map_eq_some_iff, h, true_and]
    constructor
    · rintro ⟨callee, hchild, target, htarget, rfl⟩
      exact ⟨callee, target, hchild, htarget, rfl⟩
    · rintro ⟨callee, target, hchild, htarget, rfl⟩
      exact ⟨callee, hchild, target, htarget, rfl⟩
  · rename_i h
    simp [h]

theorem headerKey?_eq_some {key : Tree} : source.headerKey? t = some key ↔
    t.kind = .subscriptExpression ∧
      (∃ object, t.child? .object = some object ∧ source.isHeaders object = true) ∧
      t.child? .index = some key := by
  rw [headerKey?, ← Option.any_eq_true]
  split
  · rename_i h
    simp [h]
  · rename_i h
    simp only [reduceCtorEq, false_iff]
    rintro ⟨hkind, hobject, -⟩
    exact h ⟨hkind, hobject⟩

/-- The word occurs in the text that a node spans. -/
def Holds (source : Source) (t : Tree) (w : String) : Prop :=
  encode w.toList <:+: source.octets t.span.start t.span.stop

theorem holds_of_textOf (h : source.textOf t = .ok w.toList) : source.Holds t w := by
  rw [Holds, Text.Utf8.encode_of_decode h]
  exact List.infix_rfl

theorem Holds.of_mem {u : Tree} (h : source.Holds u w) (hnest : t.WellNested)
    (hu : u ∈ t.preorder) : source.Holds t w := by
  obtain ⟨hstart, hle, hstop⟩ := hnest.bounds hu
  exact h.trans (octets_within hstart hle hstop)

theorem Holds.of_child {field : Field} {c : Tree} (h : source.Holds c w) (hnest : t.WellNested)
    (hc : t.child? field = some c) : source.Holds t w :=
  h.of_mem hnest (Tree.mem_preorder_of_child (Tree.mem_of_child? hc).1 c.mem_preorder_self)

theorem holds_of_word? {field : Field} {kind : Kind} (hnest : t.WellNested)
    (h : source.word? kind (t.child? field) = some w) : source.Holds t w := by
  obtain ⟨c, hc, -, htext⟩ := word?_eq_some.1 h
  exact (holds_of_textOf htext).of_child hnest hc

end Source

namespace Renderer

variable {r : Renderer} {parent : Option Tree} {t : Tree}

/-! ## Leaves -/

/-- All nodes that are renamed have the reserved name. -/
def RenamesReserved (r : Renderer) : Prop :=
  ∀ span ∈ r.renamed, r.source.slice span.start span.stop = .ok reservedName

theorem editsAt_of_leaf (hleaf : t.children = [])
    (hname : t.kind.isName = true → t.span ∉ r.renamed) : r.editsAt parent t = [] := by
  have hchild (field : Field) : t.child? field = none := by
    rw [Tree.child?, hleaf]
    rfl
  rw [editsAt]
  split
  case h_1 =>
    simp [Source.calleeEdit?, hchild]
  case h_2 =>
    simp [Source.responseAccess?, Source.propertyOf?, Source.word?, hchild]
  case h_3 =>
    simp [Source.headerKey?, hchild]
  case h_4 hkind =>
    exact if_neg (hname (by rw [hkind]; rfl))
  case h_5 hkind =>
    exact if_neg (hname (by rw [hkind]; rfl))
  case h_6 hkind =>
    exact if_neg (hname (by rw [hkind]; rfl))
  case h_7 => rfl

theorem sites_of_leaf (hleaf : t.children = [])
    (hname : t.kind.isName = true → t.span ∉ r.renamed) : r.sites parent t = [] := by
  rw [sites_eq, hleaf, editsAt_of_leaf hleaf hname]
  rfl

theorem sites_of_punctuation (h : t.IsPunctuation) : r.sites parent t = [] :=
  sites_of_leaf h.1 fun hname => by simp [h.2] at hname

theorem sites_of_propertyIdentifier (hnest : t.WellNested) (hkind : t.kind = .propertyIdentifier) :
    r.sites parent t = [] :=
  sites_of_leaf (hnest.nested.leaf (.inr hkind)) fun hname => by simp [hkind, Kind.isName] at hname

/-- An identifier with another name than the reserved one stays. -/
theorem sites_of_identifier {w : String} (hr : r.RenamesReserved) (hnest : t.WellNested)
    (hkind : t.kind = .identifier) (htext : r.source.textOf t = .ok w.toList)
    (hw : w.toList ≠ reservedName) : r.sites parent t = [] := by
  refine sites_of_leaf (hnest.nested.leaf (.inl (by rw [hkind]; rfl))) fun _ hmem => hw ?_
  have hreserved := hr _ hmem
  rw [← Source.textOf, htext] at hreserved
  exact Except.ok.inj hreserved

/-! ## Texts without the words of an edit -/

/-- Groups of words.  Where there is an edit, the text holds all words of one of the groups. -/
def markers : List (List String) :=
  bareCalls.map (fun (name, _) => [name]) ++
    [["bru"], [String.ofList reservedName], ["res", "headers"], ["pm", "headers"]] ++
    responseAccesses.map fun (name, _) => ["res", name]

theorem span_lt_of_markers (h : ∃ group ∈ markers, ∀ w ∈ group, r.source.Holds t w) :
    t.span.start < t.span.stop := by
  obtain ⟨group, hgroup, hholds⟩ := h
  have hwords : ∀ group ∈ markers, ∃ w ∈ group, encode w.toList ≠ [] := by decide +kernel
  obtain ⟨w, hw, hne⟩ := hwords group hgroup
  by_contra hle
  have hempty : r.source.octets t.span.start t.span.stop = [] := by
    rw [Source.octets, Nat.sub_eq_zero_of_le (Nat.le_of_not_lt hle), List.take_zero]
  have hpresent := hholds w hw
  rw [Source.Holds, hempty, List.infix_nil] at hpresent
  exact hne hpresent

theorem mem_markers_of_bareCall {name target : String} (h : bareCalls.lookup name = some target) :
    [name] ∈ markers := by
  obtain ⟨before, after, hsplit, -⟩ := List.lookup_eq_some_iff.1 h
  simp [markers, hsplit]

theorem mem_markers_of_responseAccess {name : String} {access : ResponseAccess}
    (h : responseAccesses.lookup name = some access) : ["res", name] ∈ markers := by
  obtain ⟨before, after, hsplit, -⟩ := List.lookup_eq_some_iff.1 h
  simp [markers, hsplit]

theorem holds_of_propertyOf? {objectName w : String} (hnest : t.WellNested)
    (h : r.source.propertyOf? objectName t = some w) :
    r.source.Holds t objectName ∧ r.source.Holds t w := by
  obtain ⟨-, hobject, hproperty⟩ := Source.propertyOf?_eq_some.1 h
  exact ⟨Source.holds_of_word? hnest hobject, Source.holds_of_word? hnest hproperty⟩

theorem markers_of_calleeTarget? {target : String} (hnest : t.WellNested)
    (h : r.source.calleeTarget? t = some target) :
    ∃ group ∈ markers, ∀ w ∈ group, r.source.Holds t w := by
  rcases Option.or_eq_some_iff.1 h with h | ⟨-, h⟩
  · obtain ⟨name, hname, hlookup⟩ := Option.bind_eq_some_iff.1 h
    obtain ⟨_, heq, -, htext⟩ := Source.word?_eq_some.1 hname
    cases heq
    exact ⟨_, mem_markers_of_bareCall hlookup, by simpa using Source.holds_of_textOf htext⟩
  · obtain ⟨name, hname, -⟩ := Option.bind_eq_some_iff.1 h
    have hbru := (holds_of_propertyOf? hnest hname).1
    exact ⟨["bru"], by simp [markers], by simpa using hbru⟩

theorem markers_of_responseAccess? {access : ResponseAccess} (hnest : t.WellNested)
    (h : r.source.responseAccess? t = some access) :
    ∃ group ∈ markers, ∀ w ∈ group, r.source.Holds t w := by
  obtain ⟨name, hname, hlookup⟩ := Option.bind_eq_some_iff.1 h
  have hholds := holds_of_propertyOf? hnest hname
  exact ⟨_, mem_markers_of_responseAccess hlookup, by simpa using hholds⟩

theorem markers_of_isHeaders (hnest : t.WellNested) (h : r.source.isHeaders t = true) :
    ∃ group ∈ markers, ∀ w ∈ group, r.source.Holds t w := by
  obtain ⟨-, hproperty, hobject⟩ := of_decide_eq_true h
  obtain ⟨property, hchild, htext⟩ := Option.bind_eq_some_iff.1 hproperty
  have hheaders : r.source.Holds t "headers" :=
    (Source.holds_of_textOf (Source.text?_eq_some.1 htext)).of_child hnest hchild
  rcases hobject with hres | hresponse
  · have hres := Source.holds_of_word? hnest hres
    exact ⟨["res", "headers"], by simp [markers], by simp [hres, hheaders]⟩
  · obtain ⟨object, hchild, hresponse⟩ := (Option.any_eq_true _ _).1 hresponse
    obtain ⟨-, hpm, -⟩ := of_decide_eq_true hresponse
    have hobject := hnest.child (Tree.mem_of_child? hchild).1
    have hpm := (Source.holds_of_word? hobject hpm).of_child hnest hchild
    exact ⟨["pm", "headers"], by simp [markers], by simp [hpm, hheaders]⟩

theorem markers_of_renamed (hr : r.RenamesReserved) (h : t.span ∈ r.renamed) :
    ∃ group ∈ markers, ∀ w ∈ group, r.source.Holds t w := by
  have htext : r.source.textOf t = .ok (String.ofList reservedName).toList := by
    rw [String.toList_ofList]
    exact hr _ h
  exact ⟨[String.ofList reservedName], by simp [markers],
    by simpa using Source.holds_of_textOf htext⟩

/-- The text of a node with an edit holds all words of a group. -/
theorem markers_of_editsAt (hr : r.RenamesReserved) (hnest : t.WellNested)
    (h : r.editsAt parent t ≠ []) : ∃ group ∈ markers, ∀ w ∈ group, r.source.Holds t w := by
  rw [editsAt] at h
  split at h
  case h_1 =>
    rcases hedit : r.source.calleeEdit? t with _ | e
    · simp [hedit] at h
    · obtain ⟨-, callee, target, hchild, htarget, -⟩ := Source.calleeEdit?_eq_some.1 hedit
      have hcallee := hnest.child (Tree.mem_of_child? hchild).1
      obtain ⟨group, hgroup, hholds⟩ := markers_of_calleeTarget? hcallee htarget
      exact ⟨group, hgroup, fun w hw => (hholds w hw).of_child hnest hchild⟩
  case h_2 =>
    rcases haccess : r.source.responseAccess? t with _ | access
    · simp [haccess] at h
    · exact markers_of_responseAccess? hnest haccess
  case h_3 =>
    rcases hkey : r.source.headerKey? t with _ | key
    · simp [hkey] at h
    · obtain ⟨-, ⟨object, hchild, hheaders⟩, -⟩ := Source.headerKey?_eq_some.1 hkey
      have hobject := hnest.child (Tree.mem_of_child? hchild).1
      obtain ⟨group, hgroup, hholds⟩ := markers_of_isHeaders hobject hheaders
      exact ⟨group, hgroup, fun w hw => (hholds w hw).of_child hnest hchild⟩
  case h_7 => exact absurd rfl h
  all_goals
    by_cases hmem : t.span ∈ r.renamed
    · exact markers_of_renamed hr hmem
    · exact absurd (if_neg hmem) h

/-- There is no edit in a node whose text holds no group of words. -/
theorem sites_of_textOf {w : String} (hr : r.RenamesReserved) (hnest : t.WellNested)
    (htext : r.source.textOf t = .ok w.toList)
    (hw : ∀ group ∈ markers, ∃ m ∈ group, ¬ encode m.toList <:+: encode w.toList) :
    r.sites parent t = [] := by
  refine List.flatMap_eq_nil_iff.2 fun (above, u) hmem => ?_
  by_contra h
  have hu := Tree.mem_preorder_of_withParents hmem
  have hbelow : u.WellNested := fun v hv => hnest v (Tree.preorder_trans hu hv)
  obtain ⟨group, hgroup, hholds⟩ := markers_of_editsAt hr hbelow h
  obtain ⟨m, hm, habsent⟩ := hw group hgroup
  have hpresent := (hholds m hm).of_mem hnest hu
  have hencode : encode w.toList = r.source.octets t.span.start t.span.stop :=
    Text.Utf8.encode_of_decode htext
  rw [Source.Holds, ← hencode] at hpresent
  exact habsent hpresent

/-! ## Parts of accesses -/

/-- There is no edit below an access when there is none in its object and its property. -/
theorem sites_of_parts (hnest : t.WellNested) (hkind : t.kind = .memberExpression)
    (hobject : ∀ c, t.child? .object = some c → r.sites (some t) c = [])
    (hproperty : ∀ c, t.child? .property = some c → r.sites (some t) c = []) :
    t.children.flatMap (r.sites (some t)) = [] := by
  refine List.flatMap_eq_nil_iff.2 ((hnest.nested.member hkind).forall_children
    (fun _ => sites_of_punctuation) fun field hfield c hc => ?_)
  simp only [List.mem_cons, List.not_mem_nil, or_false] at hfield
  rcases hfield with rfl | rfl
  · exact hobject c hc
  · exact hproperty c hc

/-- There is no edit below an access to a property of a known object. -/
theorem sites_of_propertyOf? {objectName w : String} (hr : r.RenamesReserved)
    (hnest : t.WellNested) (h : r.source.propertyOf? objectName t = some w)
    (hname : objectName.toList ≠ reservedName) : t.children.flatMap (r.sites (some t)) = [] := by
  obtain ⟨hkind, hobject, hproperty⟩ := Source.propertyOf?_eq_some.1 h
  obtain ⟨object, hobject, hidentifier, htext⟩ := Source.word?_eq_some.1 hobject
  obtain ⟨property, hproperty, hpropertyKind, -⟩ := Source.word?_eq_some.1 hproperty
  refine sites_of_parts hnest hkind (fun c hc => ?_) fun c hc => ?_
  · cases hobject.symm.trans hc
    exact sites_of_identifier hr (hnest.child (Tree.mem_of_child? hc).1) hidentifier htext hname
  · cases hproperty.symm.trans hc
    exact sites_of_propertyIdentifier (hnest.child (Tree.mem_of_child? hc).1) hpropertyKind

/-- There is no edit in a callee that is replaced. -/
theorem sites_of_calleeTarget? {target : String} (hr : r.RenamesReserved) (hnest : t.WellNested)
    (h : r.source.calleeTarget? t = some target) : r.sites parent t = [] := by
  rcases Option.or_eq_some_iff.1 h with h | ⟨-, h⟩
  · obtain ⟨name, hname, hlookup⟩ := Option.bind_eq_some_iff.1 h
    obtain ⟨_, heq, hkind, htext⟩ := Source.word?_eq_some.1 hname
    cases heq
    refine sites_of_identifier hr hnest hkind htext ?_
    have hnames : ∀ pair ∈ bareCalls, pair.1.toList ≠ reservedName := by decide
    obtain ⟨before, after, hsplit, -⟩ := List.lookup_eq_some_iff.1 hlookup
    exact hnames (name, target) (by simp [hsplit])
  · obtain ⟨name, hname, -⟩ := Option.bind_eq_some_iff.1 h
    have hbelow := sites_of_propertyOf? hr hnest hname (by decide)
    obtain ⟨hkind, hbru, -⟩ := Source.propertyOf?_eq_some.1 hname
    have hother : r.source.responseAccess? t = none := by
      simp [Source.responseAccess?, Source.propertyOf?, hbru]
    rw [sites_eq, hbelow, editsAt, hkind]
    simp [hother]

theorem sites_of_isResponse (hr : r.RenamesReserved) (hnest : t.WellNested)
    (h : r.source.isResponse t = true) : r.sites parent t = [] := by
  obtain ⟨hkind, hpm, hproperty⟩ := of_decide_eq_true h
  have hother : r.source.responseAccess? t = none := by
    simp [Source.responseAccess?, Source.propertyOf?, hpm]
  have hbelow : t.children.flatMap (r.sites (some t)) = [] := by
    refine sites_of_parts hnest hkind (fun c hc => ?_) fun c hc => ?_
    · obtain ⟨object, hobject, hidentifier, htext⟩ := Source.word?_eq_some.1 hpm
      cases hobject.symm.trans hc
      exact sites_of_identifier hr (hnest.child (Tree.mem_of_child? hc).1) hidentifier htext
        (by decide)
    · rw [hc] at hproperty
      exact sites_of_textOf hr (hnest.child (Tree.mem_of_child? hc).1)
        (Source.text?_eq_some.1 hproperty) (by decide +kernel)
  rw [sites_eq, hbelow, editsAt, hkind]
  simp [hother]

/-- There is no edit in the headers of the response when one of them is looked up. -/
theorem sites_of_isHeaders (hr : r.RenamesReserved) (hnest : t.WellNested)
    (h : r.source.isHeaders t = true) (hlookup : r.source.isLookedUp parent t = true) :
    r.sites parent t = [] := by
  obtain ⟨hkind, hproperty, hobject⟩ := of_decide_eq_true h
  have hbelow : t.children.flatMap (r.sites (some t)) = [] := by
    refine sites_of_parts hnest hkind (fun c hc => ?_) fun c hc => ?_
    · rcases hobject with hres | hresponse
      · obtain ⟨object, hobject, hidentifier, htext⟩ := Source.word?_eq_some.1 hres
        cases hobject.symm.trans hc
        exact sites_of_identifier hr (hnest.child (Tree.mem_of_child? hc).1) hidentifier htext
          (by decide)
      · rw [hc] at hresponse
        exact sites_of_isResponse hr (hnest.child (Tree.mem_of_child? hc).1) hresponse
    · rw [hc] at hproperty
      exact sites_of_textOf hr (hnest.child (Tree.mem_of_child? hc).1)
        (Source.text?_eq_some.1 hproperty) (by decide +kernel)
  rw [sites_eq, hbelow, editsAt, hkind]
  simp [hlookup]

/-! ## Look-ups -/

theorem isLookedUp_of_headerKey? (h : r.source.headerKey? t = none) (c : Tree) :
    r.source.isLookedUp (some t) c = false := by
  rw [Source.isLookedUp, Option.any_some, h]
  rfl

/-- The key of a look-up is not what it is looked up in. -/
theorem isLookedUp_key {key : Tree} (hnest : t.WellNested)
    (h : r.source.headerKey? t = some key) : r.source.isLookedUp (some t) key = false := by
  obtain ⟨-, ⟨object, hobject, hheaders⟩, hkey⟩ := Source.headerKey?_eq_some.1 h
  obtain ⟨hmem, hobjectField⟩ := Tree.mem_of_child? hobject
  obtain ⟨hkeyMem, hkeyField⟩ := Tree.mem_of_child? hkey
  have hspan := span_lt_of_markers (markers_of_isHeaders (hnest.child hmem) hheaders)
  have hne : key.span ≠ object.span := by
    intro heq
    have hsame := hnest.nested.ordered.eq_of_span_eq hmem hkeyMem hspan heq
    rw [hsame, hobjectField] at hkeyField
    cases hkeyField
  simp [Source.isLookedUp, hobject, hne.symm]

/-- The edits below a look-up are those of its key. -/
theorem sites_of_headerKey? {key : Tree} (hr : r.RenamesReserved) (hnest : t.WellNested)
    (h : r.source.headerKey? t = some key) :
    t.children.flatMap (r.sites (some t)) = r.sites (some t) key := by
  obtain ⟨hkind, ⟨object, hobject, hheaders⟩, hkey⟩ := Source.headerKey?_eq_some.1 h
  have hlookup : r.source.isLookedUp (some t) object = true := by
    simp [Source.isLookedUp, h, hobject]
  refine (hnest.nested.subscript hkind).flatMap_eq (by simp) hkey (fun _ => sites_of_punctuation)
    fun other hother hne c hc => ?_
  simp only [List.mem_cons, List.not_mem_nil, or_false] at hother
  obtain rfl : other = .object := hother.resolve_right hne
  cases hobject.symm.trans hc
  exact sites_of_isHeaders hr (hnest.child (Tree.mem_of_child? hobject).1) hheaders hlookup

end Renderer

end Courier.Script
