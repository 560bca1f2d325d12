import Courier.Proofs.Script.Site
import Mathlib.Data.List.Basic
import Mathlib.Data.List.Flatten
import Mathlib.Tactic.Common

/-!
# Uses without replacement

`Source.notice?` says of one node whether it is a use without replacement, and which notice is due:

* a call of a method of `bru` that has no replacement;
* a call of what is reached from `bru` by two or more accesses;
* in a test script, a property of `res` that has no replacement.

It does not say how a tree is rendered.  Parts of a tree that are dropped in the course of a
replacement are to hold no such use (`Source.Quiet`).  This is shown for replaced callees and
accesses, which hold nothing but names, and for the headers of the response where one of them is
looked up.  There, the property of `pm.response` has to be a leaf: any other node might begin with
an access to `res`.  `Source.visited` lists the nodes of a tree without the headers in look-ups, and
`notices_eq_preorder` says that the same notices are due for them as for all nodes.
-/

namespace Courier.Script

open Text.Utf8 (encode)

namespace Source

variable (source : Source)

/-- The number of accesses by which a node is reached from the identifier `name`. -/
def chainLength? (name : String) : Tree → Option Nat :=
  Tree.fold fun t results =>
    if t.kind = .memberExpression then (pick? .object results).join.map (· + 1)
    else if source.word? .identifier (some t) = some name then some 0
    else none

/-- The notice that is due for a call, by what is called. -/
def calleeNotice? (callee : Tree) : Option Notice :=
  match source.chainLength? "bru" callee with
  | some 1 => (source.propertyOf? "bru" callee).bind fun method =>
    if variableCalls.lookup method = none then some (.method method.toList) else none
  | some (_ + 2) => (source.text? callee).map (.chain ·.toList)
  | _ => none

/-- The notice that is due for an access to a property of the response. -/
def propertyNotice? (t : Tree) : Option Notice :=
  (source.propertyOf? "res" t).bind fun name =>
    if responseAccesses.lookup name = none then some (.property name.toList) else none

/-- The notice that is due for a node in a script of the given role. -/
def notice? (role : Role) (t : Tree) : Option Notice :=
  match t.kind with
  | .callExpression => (t.child? .function).bind source.calleeNotice?
  | .memberExpression => if role = .test then source.propertyNotice? t else none
  | _ => none

/-- No notice is due for any node of the tree. -/
def Quiet (role : Role) (t : Tree) : Prop := ∀ u ∈ t.preorder, source.notice? role u = none

/-- The nodes of a tree, a node before its children.  Of a look-up in the headers of the response in
a test script only the look-up itself and its key are listed. -/
def visited (role : Role) : Tree → List Tree :=
  Tree.fold fun t results =>
    t :: match if role = .test then source.headerKey? t else none with
      | some _ => (pick? .index results).getD []
      | none => (results.map (·.2)).flatten

/-- The property in every access `pm.response` is a leaf. -/
def PlainResponses (root : Tree) : Prop :=
  ∀ u ∈ root.preorder, source.isResponse u = true →
    ∀ property ∈ u.child? .property, property.children = []

instance (root : Tree) : Decidable (source.PlainResponses root) :=
  inferInstanceAs (Decidable (∀ u ∈ root.preorder, source.isResponse u = true →
    ∀ property ∈ u.child? .property, property.children = []))

/-- The notices that are due for the visited nodes of a tree. -/
def notices (role : Role) (t : Tree) : List Notice :=
  (source.visited role t).filterMap (source.notice? role)

variable {source} {role : Role} {t : Tree} {name w : String} {notice : Notice}

/-! ## Chains of accesses -/

theorem chainLength?_eq (name : String) (t : Tree) : source.chainLength? name t =
    if t.kind = .memberExpression then
      ((t.child? .object).bind (source.chainLength? name)).map (· + 1)
    else if source.word? .identifier (some t) = some name then some 0
    else none := by
  rw [chainLength?, Tree.fold_node, pick?_map]
  rcases t.child? .object with _ | object
  · rfl
  · rfl

theorem chainLength?_eq_zero : source.chainLength? name t = some 0 ↔
    source.word? .identifier (some t) = some name := by
  rw [chainLength?_eq]
  by_cases hmember : t.kind = .memberExpression
  · rw [word?_some, if_pos hmember, if_neg (by simp [hmember])]
    rcases (t.child? .object).bind (source.chainLength? name) with _ | n
    · simp
    · simp
  · simp [hmember]

/-- A chain of one access is an access to a property of the identifier. -/
theorem chainLength?_eq_one (hmember : t.kind = .memberExpression) :
    source.chainLength? name t = some 1 ↔
      source.word? .identifier (t.child? .object) = some name := by
  rw [chainLength?_eq, if_pos hmember]
  rcases t.child? .object with _ | object
  · simp
  · simp [chainLength?_eq_zero]

theorem chainRoot_eq (t : Tree) : Renderer.chainRoot t =
    if t.kind = .memberExpression then (t.child? .object).bind Renderer.chainRoot else some t := by
  rw [Renderer.chainRoot, Tree.fold_node, pick?_map]
  rcases t.child? .object with _ | object
  · rfl
  · rfl

/-- A node is a chain of accesses when the innermost object of it is the identifier. -/
theorem isSome_chainLength?_iff : (source.chainLength? name t).isSome = true ↔
    source.word? .identifier (Renderer.chainRoot t) = some name := by
  induction t using Tree.induct with
  | step t ih =>
    rw [chainLength?_eq, chainRoot_eq]
    split
    · rw [Option.isSome_map]
      rcases hobject : t.child? .object with _ | object
      · simp
      · exact ih object (Tree.mem_of_child? hobject).1
    · split_ifs with hword
      · simp [hword]
      · simp [hword]

/-- A chain of accesses holds the name that it begins with. -/
theorem holds_of_chainLength? {n : Nat} (hnest : t.WellNested)
    (h : source.chainLength? name t = some n) : source.Holds t name := by
  induction t using Tree.induct generalizing n with
  | step t ih =>
    rw [chainLength?_eq] at h
    split at h
    · obtain ⟨m, hm, -⟩ := Option.map_eq_some_iff.1 h
      obtain ⟨object, hobject, hchain⟩ := Option.bind_eq_some_iff.1 hm
      have hmem := (Tree.mem_of_child? hobject).1
      exact (ih object hmem (hnest.child hmem) hchain).of_child hnest hobject
    · split at h
      · rename_i hword
        obtain ⟨_, heq, -, htext⟩ := word?_eq_some.1 hword
        cases heq
        exact holds_of_textOf htext
      · cases h

/-! ## The notice for a call -/

theorem calleeNotice?_of_not_member (hmember : t.kind ≠ .memberExpression) :
    source.calleeNotice? t = none := by
  rw [calleeNotice?, chainLength?_eq, if_neg hmember]
  split_ifs <;> rfl

theorem calleeNotice?_of_object (hmember : t.kind = .memberExpression)
    (h : source.word? .identifier (t.child? .object) = some "bru") :
    source.calleeNotice? t = (source.propertyOf? "bru" t).bind fun method =>
      if variableCalls.lookup method = none then some (.method method.toList) else none := by
  rw [calleeNotice?, (chainLength?_eq_one hmember).2 h]

/-- What is called is a longer chain when its object is no identifier. -/
theorem calleeNotice?_of_chain (hmember : t.kind = .memberExpression)
    (h : source.word? .identifier (t.child? .object) ≠ some "bru") :
    source.calleeNotice? t = if (source.chainLength? "bru" t).isSome then
      (source.text? t).map (.chain ·.toList) else none := by
  rw [calleeNotice?]
  rcases hlength : source.chainLength? "bru" t with _ | _ | _ | n
  · rfl
  · rw [chainLength?_eq_zero, word?_some, if_neg (by simp [hmember])] at hlength
    cases hlength
  · exact absurd ((chainLength?_eq_one hmember).1 hlength) h
  · rfl

/-! ## Where no notice is due -/

theorem notice?_of_leaf (hleaf : t.children = []) : source.notice? role t = none := by
  have hchild (field : Field) : t.child? field = none := by
    rw [Tree.child?, hleaf]
    rfl
  rw [notice?]
  split
  · rw [hchild, Option.bind_none]
  · simp [propertyNotice?, propertyOf?, hchild]
  · rfl

theorem quiet_iff : source.Quiet role t ↔
    source.notice? role t = none ∧ ∀ c ∈ t.children, source.Quiet role c := by
  rw [Quiet, Tree.preorder_eq, List.forall_mem_cons]
  refine and_congr_right fun _ => ⟨fun h c hc u hu => ?_, fun h u hu => ?_⟩
  · exact h u (List.mem_flatMap.2 ⟨c, hc, hu⟩)
  · obtain ⟨c, hc, hu⟩ := List.mem_flatMap.1 hu
    exact h c hc u hu

theorem quiet_of_leaf (hleaf : t.children = []) : source.Quiet role t :=
  quiet_iff.2 ⟨notice?_of_leaf hleaf, by simp [hleaf]⟩

/-- Of a quiet tree no node calls for a notice, whichever are looked at. -/
theorem Quiet.filterMap_eq_nil (h : source.Quiet role t) {nodes : List Tree}
    (hnodes : nodes.Sublist t.preorder) : nodes.filterMap (source.notice? role) = [] :=
  List.filterMap_eq_nil_iff.2 fun u hu => h u (hnodes.subset hu)

/-! ## Texts without the words of a use -/

theorem holds_of_calleeNotice? (hnest : t.WellNested)
    (h : source.calleeNotice? t = some notice) : source.Holds t "bru" := by
  rw [calleeNotice?] at h
  rcases hlength : source.chainLength? "bru" t with _ | n
  · simp [hlength] at h
  · exact holds_of_chainLength? hnest hlength

/-- The text of a use without replacement holds the name of its object. -/
theorem holds_of_notice? (hnest : t.WellNested) (h : source.notice? role t = some notice) :
    source.Holds t "bru" ∨ source.Holds t "res" := by
  rw [notice?] at h
  split at h
  · obtain ⟨callee, hcallee, hnotice⟩ := Option.bind_eq_some_iff.1 h
    have hbelow := hnest.child (Tree.mem_of_child? hcallee).1
    exact .inl ((holds_of_calleeNotice? hbelow hnotice).of_child hnest hcallee)
  · split at h
    · obtain ⟨property, hproperty, -⟩ := Option.bind_eq_some_iff.1 h
      obtain ⟨-, hobject, -⟩ := propertyOf?_eq_some.1 hproperty
      exact .inr (holds_of_word? hnest hobject)
    · cases h
  · cases h

/-- No use stands in a text that holds neither name. -/
theorem quiet_of_textOf (hnest : t.WellNested) (htext : source.textOf t = .ok w.toList)
    (hbru : ¬ encode "bru".toList <:+: encode w.toList)
    (hres : ¬ encode "res".toList <:+: encode w.toList) : source.Quiet role t := by
  intro u hu
  have hencode : encode w.toList = source.octets t.span.start t.span.stop :=
    Text.Utf8.encode_of_decode htext
  refine Option.eq_none_iff_forall_ne_some.2 fun notice hnotice => ?_
  have hbelow : u.WellNested := fun v hv => hnest v (Tree.preorder_trans hu hv)
  rcases holds_of_notice? hbelow hnotice with hholds | hholds
  · refine hbru ?_
    rw [hencode]
    exact hholds.of_mem hnest hu
  · refine hres ?_
    rw [hencode]
    exact hholds.of_mem hnest hu

/-! ## Replaced nodes -/

/-- No use stands in an access whose parts hold none. -/
theorem quiet_of_parts (hnest : t.WellNested) (hkind : t.kind = .memberExpression)
    (hself : source.notice? role t = none)
    (hobject : ∀ c, t.child? .object = some c → source.Quiet role c)
    (hproperty : ∀ c, t.child? .property = some c → source.Quiet role c) :
    source.Quiet role t := by
  refine quiet_iff.2 ⟨hself, (hnest.nested.member hkind).forall_children
    (fun c hc => quiet_of_leaf hc.1) fun field hfield c hc => ?_⟩
  simp only [List.mem_cons, List.not_mem_nil, or_false] at hfield
  rcases hfield with rfl | rfl
  · exact hobject c hc
  · exact hproperty c hc

theorem quiet_of_word? {kind : Kind} {field : Field} (hnest : t.WellNested)
    (hleaf : kind.isName = true ∨ kind = .propertyIdentifier)
    (h : source.word? kind (t.child? field) = some w) :
    ∀ c, t.child? field = some c → source.Quiet role c := by
  intro c hc
  obtain ⟨_, heq, hkind, -⟩ := word?_eq_some.1 h
  cases heq.symm.trans hc
  exact quiet_of_leaf ((hnest.child (Tree.mem_of_child? hc).1).nested.leaf (hkind ▸ hleaf))

/-- An access to a property of a known object holds no other use. -/
theorem quiet_of_propertyOf? {objectName : String} (hnest : t.WellNested)
    (h : source.propertyOf? objectName t = some w) (hself : source.notice? role t = none) :
    source.Quiet role t := by
  obtain ⟨hkind, hobject, hproperty⟩ := propertyOf?_eq_some.1 h
  exact quiet_of_parts hnest hkind hself (quiet_of_word? hnest (.inl rfl) hobject)
    (quiet_of_word? hnest (.inr rfl) hproperty)

/-- An access to a property of another object is no use without replacement. -/
theorem notice?_of_object (hkind : t.kind = .memberExpression)
    (h : source.word? .identifier (t.child? .object) ≠ some "res") :
    source.notice? role t = none := by
  have hnone : source.propertyOf? "res" t = none := if_neg fun hcond => h hcond.2
  rw [notice?, hkind]
  simp [propertyNotice?, hnone]

/-- No use stands in a callee that is replaced. -/
theorem quiet_of_calleeTarget? {target : String} (hnest : t.WellNested)
    (h : source.calleeTarget? t = some target) : source.Quiet role t := by
  rcases Option.or_eq_some_iff.1 h with h | ⟨-, h⟩
  · obtain ⟨name, hname, -⟩ := Option.bind_eq_some_iff.1 h
    obtain ⟨_, heq, hkind, -⟩ := word?_eq_some.1 hname
    cases heq
    exact quiet_of_leaf (hnest.nested.leaf (.inl (by rw [hkind]; rfl)))
  · obtain ⟨name, hname, -⟩ := Option.bind_eq_some_iff.1 h
    obtain ⟨hkind, hbru, -⟩ := propertyOf?_eq_some.1 hname
    exact quiet_of_propertyOf? hnest hname (notice?_of_object hkind (by simp [hbru]))

/-- No use stands in an access that is replaced. -/
theorem quiet_of_responseAccess? {access : ResponseAccess} (hnest : t.WellNested)
    (h : source.responseAccess? t = some access) : source.Quiet role t := by
  obtain ⟨name, hname, hlookup⟩ := Option.bind_eq_some_iff.1 h
  refine quiet_of_propertyOf? hnest hname ?_
  rw [notice?, (propertyOf?_eq_some.1 hname).1]
  simp [propertyNotice?, hname, hlookup]

/-! ## Look-ups -/

theorem quiet_of_isResponse (hnest : t.WellNested) (h : source.isResponse t = true)
    (hleaf : ∀ property ∈ t.child? .property, property.children = []) :
    source.Quiet role t := by
  obtain ⟨hkind, hpm, -⟩ := of_decide_eq_true h
  exact quiet_of_parts hnest hkind (notice?_of_object hkind (by simp [hpm]))
    (quiet_of_word? hnest (.inl rfl) hpm) fun c hc => quiet_of_leaf (hleaf c hc)

/-- The property called `headers` has a replacement. -/
theorem notice?_of_isHeaders (h : source.isHeaders t = true) : source.notice? role t = none := by
  obtain ⟨hkind, hproperty, -⟩ := of_decide_eq_true h
  have hname : ∀ name, source.propertyOf? "res" t = some name → name = "headers" := by
    intro name hname
    obtain ⟨property, hchild, -, htext⟩ := word?_eq_some.1 (propertyOf?_eq_some.1 hname).2.2
    rw [hchild, Option.bind_some, text?_eq_some, htext] at hproperty
    exact String.toList_inj.1 (Except.ok.inj hproperty)
  have hnone : source.propertyNotice? t = none := by
    rw [propertyNotice?]
    rcases haccess : source.propertyOf? "res" t with _ | name
    · rfl
    · rw [hname name haccess]
      decide
  rw [notice?, hkind]
  simp [hnone]

/-- No use stands in the headers of the response. -/
theorem quiet_of_isHeaders (hnest : t.WellNested) (hplain : source.PlainResponses t)
    (h : source.isHeaders t = true) : source.Quiet role t := by
  obtain ⟨hkind, hproperty, hobject⟩ := of_decide_eq_true h
  refine quiet_of_parts hnest hkind (notice?_of_isHeaders h) (fun c hc => ?_) fun c hc => ?_
  · have hmem := (Tree.mem_of_child? hc).1
    rcases hobject with hres | hresponse
    · exact quiet_of_word? hnest (.inl rfl) hres c hc
    · rw [hc, Option.any_some] at hresponse
      exact quiet_of_isResponse (hnest.child hmem) hresponse
        (hplain c (Tree.mem_preorder_of_child hmem c.mem_preorder_self) hresponse)
  · rw [hc, Option.bind_some, text?_eq_some] at hproperty
    exact quiet_of_textOf (hnest.child (Tree.mem_of_child? hc).1) hproperty (by decide +kernel)
      (by decide +kernel)

/-! ## Visited nodes -/

theorem visited_eq (role : Role) (t : Tree) : source.visited role t =
    t :: match if role = .test then source.headerKey? t else none with
      | some key => source.visited role key
      | none => t.children.flatMap (source.visited role) := by
  rw [visited, Tree.fold_node, pick?_map, List.map_map, List.flatMap]
  rcases hkey : if role = .test then source.headerKey? t else none with _ | key
  · rfl
  · have hindex : t.child? .index = some key := by
      obtain ⟨-, hkey⟩ := Option.ite_none_right_eq_some.1 hkey
      exact (headerKey?_eq_some.1 hkey).2.2
    rw [hindex]
    rfl

theorem visited_of_key {key : Tree} (hrole : role = .test) (h : source.headerKey? t = some key) :
    source.visited role t = t :: source.visited role key := by
  rw [visited_eq, if_pos hrole, h]

theorem visited_of_no_key (h : role = .test → source.headerKey? t = none) :
    source.visited role t = t :: t.children.flatMap (source.visited role) := by
  have hnone : (if role = .test then source.headerKey? t else none) = none := by
    split_ifs with hrole
    · exact h hrole
    · rfl
  rw [visited_eq, hnone]

theorem notices_of_key {key : Tree} (hrole : role = .test) (h : source.headerKey? t = some key) :
    source.notices role t = source.notices role key := by
  have hnone : source.notice? role t = none := by
    rw [notice?, (headerKey?_eq_some.1 h).1]
  rw [notices, visited_of_key hrole h, List.filterMap_cons_none hnone, notices]

theorem notices_of_no_key (h : role = .test → source.headerKey? t = none) :
    source.notices role t =
      (source.notice? role t).toList ++ t.children.flatMap (source.notices role) := by
  rw [notices, visited_of_no_key h, List.filterMap_cons, List.filterMap_flatMap]
  cases source.notice? role t <;> rfl

/-- The headers in a look-up are all that is left out. -/
theorem visited_sublist (role : Role) (t : Tree) :
    (source.visited role t).Sublist t.preorder := by
  induction t using Tree.induct with
  | step t ih =>
    rw [visited_eq, Tree.preorder_eq]
    refine List.Sublist.cons_cons t ?_
    split
    · rename_i key hkey
      obtain ⟨-, hkey⟩ := Option.ite_none_right_eq_some.1 hkey
      obtain ⟨hmem, -⟩ := Tree.mem_of_child? (headerKey?_eq_some.1 hkey).2.2
      exact (ih key hmem).trans
        (List.sublist_flatten_of_mem (List.mem_map_of_mem hmem))
    · exact List.Sublist.flatMap_right t.children ih

theorem Quiet.notices_eq_nil (h : source.Quiet role t) : source.notices role t = [] :=
  h.filterMap_eq_nil (visited_sublist role t)

/-- The same notices are due for the visited nodes as for all. -/
theorem notices_eq_preorder (hnest : t.WellNested)
    (hplain : role = .test → source.PlainResponses t) :
    source.notices role t = t.preorder.filterMap (source.notice? role) := by
  induction t using Tree.induct with
  | step t ih =>
    have hchild : ∀ c ∈ t.children, (source.visited role c).filterMap (source.notice? role) =
        c.preorder.filterMap (source.notice? role) := fun c hc =>
      ih c hc (hnest.child hc) fun hrole u hu => hplain hrole u (Tree.mem_preorder_of_child hc hu)
    rw [notices, Tree.preorder_eq, List.filterMap_cons, List.filterMap_flatMap]
    rcases hkey : if role = .test then source.headerKey? t else none with _ | key
    · rw [visited_eq, hkey, List.filterMap_cons, List.filterMap_flatMap, List.flatMap_congr hchild]
    · obtain ⟨hrole, hkey⟩ := Option.ite_none_right_eq_some.1 hkey
      obtain ⟨hkind, ⟨object, hobject, hheaders⟩, hindex⟩ := headerKey?_eq_some.1 hkey
      rw [visited_of_key hrole hkey, List.filterMap_cons, hchild key (Tree.mem_of_child? hindex).1,
        (hnest.nested.subscript hkind).flatMap_eq (by simp) hindex
          (fun c hc => (quiet_of_leaf hc.1).filterMap_eq_nil (List.Sublist.refl _))]
      intro other hother hne c hc
      simp only [List.mem_cons, List.not_mem_nil, or_false] at hother
      obtain rfl : other = .object := hother.resolve_right hne
      cases hobject.symm.trans hc
      have hmem := (Tree.mem_of_child? hobject).1
      refine (quiet_of_isHeaders (hnest.child hmem) (fun u hu => ?_) hheaders).filterMap_eq_nil
        (List.Sublist.refl _)
      exact hplain hrole u (Tree.mem_preorder_of_child hmem hu)

end Source

end Courier.Script
