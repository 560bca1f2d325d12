import Courier.Proofs.Environment.Secrecy
import Mathlib.Data.List.Forall2

/-!
# Variables are conserved

No variable that has been read is lost, moved or altered by what is read after it.  A pair always
brings a variable of its own.  A listed name brings one only if no variable has that name by then;
otherwise it makes a variable secret that is there already.

* `Kept old new` says what may become of a variable: nothing, except that it may become secret.
* `addSecret_kept` says what one listed name does, and `foldl_addMention_kept` what a run of
  mentions does.
* `bringing` are the mentions that bring a variable.  `filterMap_pair?_bringing` says that all pairs
  are among them, and `countP_lists_bringing` that a name is listed at most once among them.
* `entries_conserved` puts these together for a document.
-/

namespace Courier.Environment

open Text (trim)

/-! ## What may become of a variable -/

/-- The variable `new` is `old`, but it may have become secret. -/
structure Kept (old new : Variable) : Prop where
  key : new.key = old.key
  value : new.value = old.value
  enabled : new.enabled = old.enabled
  secret : old.secret = true → new.secret = true

theorem Kept.refl (v : Variable) : Kept v v := ⟨rfl, rfl, rfl, id⟩

theorem Kept.trans {u v w : Variable} (h : Kept u v) (h' : Kept v w) : Kept u w :=
  ⟨h'.key.trans h.key, h'.value.trans h.value, h'.enabled.trans h.enabled,
    fun hu => h'.secret (h.secret hu)⟩

theorem Kept.marked (v : Variable) : Kept v { v with secret := true } :=
  ⟨rfl, rfl, rfl, fun _ => rfl⟩

theorem forall₂_kept_refl (entries : List Variable) : List.Forall₂ Kept entries entries :=
  List.forall₂_same.2 fun v _ => .refl v

theorem forall₂_kept_trans {xs ys zs : List Variable} (h : List.Forall₂ Kept xs ys)
    (h' : List.Forall₂ Kept ys zs) : List.Forall₂ Kept xs zs := by
  induction h generalizing zs with
  | nil => exact h'
  | cons hv _ ih =>
    obtain ⟨w, ws, hw, hws, rfl⟩ := List.forall₂_cons_left_iff.1 h'
    exact .cons (hv.trans hw) (ih hws)

/-- Variables that are kept have the keys they had. -/
theorem map_key_of_kept {xs ys : List Variable} (h : List.Forall₂ Kept xs ys) :
    ys.map (·.key) = xs.map (·.key) := by
  induction h with
  | nil => rfl
  | cons hv _ ih => rw [List.map_cons, List.map_cons, hv.key, ih]

/-! ## One mention -/

/-- The variable that a listed name brings. -/
def listedVariable (secret : String × Bool) : Variable := ⟨secret.1, "", secret.2, true⟩

theorem markLast?_isSome_of_mem {key : String} {entries : List Variable}
    (h : key ∈ entries.map (·.key)) : ∃ marked, markLast? key entries = some marked := by
  rcases hmark : markLast? key entries with _ | marked
  · obtain ⟨v, hv, hkey⟩ := List.mem_map.1 h
    exact absurd hkey (ne_of_markLast?_eq_none hmark v hv)
  · exact ⟨marked, rfl⟩

/-- A listed name that a variable has keeps all variables and brings none. -/
theorem addSecret_kept {entries : List Variable} {secret : String × Bool}
    (h : secret.1 ∈ entries.map (·.key)) :
    List.Forall₂ Kept entries (addSecret entries secret) := by
  obtain ⟨marked, hmark⟩ := markLast?_isSome_of_mem h
  have hadd : addSecret entries secret = marked := by rw [addSecret, hmark, Option.getD_some]
  obtain ⟨before, v, after, rfl, -, -, rfl⟩ := markLast?_eq_some hmark
  rw [hadd]
  exact List.rel_append (forall₂_kept_refl before) (.cons (.marked v) (forall₂_kept_refl after))

/-- A listed name that no variable has brings one, and leaves the others as they are. -/
theorem addSecret_new {entries : List Variable} {secret : String × Bool}
    (h : secret.1 ∉ entries.map (·.key)) :
    addSecret entries secret = entries ++ [listedVariable secret] := by
  rcases hmark : markLast? secret.1 entries with _ | marked
  · rw [addSecret, hmark, Option.getD_none]
    rfl
  · obtain ⟨before, v, after, rfl, hkey, -, -⟩ := markLast?_eq_some hmark
    exact absurd (List.mem_map.2 ⟨v, by simp, hkey⟩) h

/-! ## The mentions that bring a variable -/

namespace Mention

def key : Mention → String
  | .pair v => v.key
  | .listed secret => secret.1

/-- The variable that a mention brings, if it brings one. -/
def entry : Mention → Variable
  | .pair v => v
  | .listed secret => listedVariable secret

/-- The variable of a pair. -/
def pair? : Mention → Option Variable
  | .pair v => some v
  | .listed _ => none

/-- The mention lists a name. -/
def lists (name : String) : Mention → Bool
  | .pair _ => false
  | .listed secret => secret.1 == name

/-- The mention brings a variable of its own, after the variables that have been read by then. -/
def Brings (entries : List Variable) : Mention → Prop
  | .pair _ => True
  | .listed secret => secret.1 ∉ entries.map (·.key)

instance (entries : List Variable) : DecidablePred (Brings entries)
  | .pair _ => .isTrue trivial
  | .listed secret => inferInstanceAs (Decidable (secret.1 ∉ entries.map (·.key)))

end Mention

/-- The mentions of a run that bring a variable, given the variables before it. -/
def bringing (entries : List Variable) : List Mention → List Mention
  | [] => []
  | m :: rest =>
    if m.Brings entries then m :: bringing (addMention entries m) rest
    else bringing (addMention entries m) rest

variable {entries : List Variable} {m : Mention}

theorem addMention_of_brings (h : m.Brings entries) :
    addMention entries m = entries ++ [m.entry] := by
  cases m with
  | pair v => rfl
  | listed secret => exact addSecret_new h

theorem addMention_of_not_brings (h : ¬ m.Brings entries) :
    List.Forall₂ Kept entries (addMention entries m) := by
  cases m with
  | pair v => exact absurd trivial h
  | listed secret => exact addSecret_kept (Classical.not_not.1 h)

/-- After a run of mentions the variables are those before it and those that it brings, in order,
and all of them are kept. -/
theorem foldl_addMention_kept (ms : List Mention) (entries : List Variable) :
    List.Forall₂ Kept (entries ++ (bringing entries ms).map Mention.entry)
      (ms.foldl addMention entries) := by
  induction ms generalizing entries with
  | nil => simpa [bringing] using forall₂_kept_refl entries
  | cons m ms ih =>
    have hrest := ih (addMention entries m)
    rw [List.foldl_cons, bringing]
    split
    · rename_i h
      rw [addMention_of_brings h] at hrest ⊢
      simpa using hrest
    · rename_i h
      exact forall₂_kept_trans
        (List.rel_append (addMention_of_not_brings h) (forall₂_kept_refl _)) hrest

/-- Every pair brings a variable. -/
theorem filterMap_pair?_bringing (ms : List Mention) (entries : List Variable) :
    (bringing entries ms).filterMap Mention.pair? = ms.filterMap Mention.pair? := by
  induction ms generalizing entries with
  | nil => rfl
  | cons m ms ih =>
    cases m with
    | pair v =>
      have hbrings : (Mention.pair v).Brings entries := trivial
      rw [bringing, if_pos hbrings, List.filterMap_cons, List.filterMap_cons, ih]
    | listed secret =>
      rw [bringing, List.filterMap_cons_none rfl, ← ih (addMention entries (.listed secret))]
      split
      · rw [List.filterMap_cons_none rfl]
      · rfl

/-- A name that a variable has is not lost, and a mention that brings a variable adds its own. -/
theorem map_key_addMention (entries : List Variable) (m : Mention) :
    (addMention entries m).map (·.key) =
      entries.map (·.key) ++ if m.Brings entries then [m.key] else [] := by
  split
  · rename_i h
    rw [addMention_of_brings h]
    cases m <;> simp [Mention.entry, Mention.key, listedVariable]
  · rename_i h
    rw [map_key_of_kept (addMention_of_not_brings h), List.append_nil]

/-- Once a variable has a name, listing the name brings none. -/
theorem countP_lists_bringing_of_mem {key : String} (ms : List Mention)
    (h : key ∈ entries.map (·.key)) : (bringing entries ms).countP (·.lists key) = 0 := by
  induction ms generalizing entries with
  | nil => rfl
  | cons m ms ih =>
    have hrest : (bringing (addMention entries m) ms).countP (·.lists key) = 0 := by
      refine ih ?_
      rw [map_key_addMention]
      exact List.mem_append_left _ h
    rw [bringing]
    split
    · rename_i hm
      have hlists : ¬ m.lists key = true := by
        cases m with
        | pair v => exact Bool.false_ne_true
        | listed secret =>
          intro heq
          exact hm (beq_iff_eq.1 heq ▸ h)
      rw [List.countP_cons_of_neg hlists, hrest]
    · exact hrest

/-- Of all listings of a name no more than one brings a variable. -/
theorem countP_lists_bringing (key : String) (ms : List Mention) (entries : List Variable) :
    (bringing entries ms).countP (·.lists key) ≤ 1 := by
  induction ms generalizing entries with
  | nil => exact Nat.zero_le _
  | cons m ms ih =>
    rw [bringing]
    split
    · rename_i hm
      by_cases hlists : m.lists key = true
      · cases m with
        | pair v => cases hlists
        | listed secret =>
          have hmem : key ∈ (addMention entries (.listed secret)).map (·.key) := by
            rw [map_key_addMention, if_pos hm]
            exact List.mem_append_right _ (List.mem_singleton.2 (beq_iff_eq.1 hlists).symm)
          exact Nat.le_of_eq (by
            rw [List.countP_cons_of_pos hlists, countP_lists_bringing_of_mem ms hmem])
      · rw [List.countP_cons_of_neg hlists]
        exact ih _
    · exact ih _

/-! ## Documents -/

/-- The line of a pair without the word that marks its variable as secret. -/
def unmarked (line : Line) : Line :=
  let s := trim line
  if secretWord.isPrefixOf s then s.drop secretWord.length else s

/-- The pairs of a document, in order. -/
def pairsOf (text : List Char) : List Pair :=
  (Section.scan text).flatMap fun s =>
    if s.name = "vars" then s.lines.filterMap fun line => Pair.ofLine? (unmarked line) else []

/-- A variable as a pair. -/
def toPair (v : Variable) : Pair := ⟨v.key, v.value, v.enabled⟩

theorem map_toPair_readVariable? (line : Line) :
    (readVariable? line).map toPair = Pair.ofLine? (unmarked line) := by
  rw [readVariable?, Option.map_map]
  exact Option.map_id'

theorem filterMap_pair?_mentionsIn (s : Section) :
    ((mentionsIn s).filterMap Mention.pair?).map toPair =
      if s.name = "vars" then s.lines.filterMap fun line => Pair.ofLine? (unmarked line)
      else [] := by
  have hpairs (vs : List Variable) : (vs.map Mention.pair).filterMap Mention.pair? = vs := by
    rw [List.filterMap_map]
    exact List.filterMap_some
  have hlisted (names : List (String × Bool)) :
      (names.map Mention.listed).filterMap Mention.pair? = [] := by
    rw [List.filterMap_map]
    exact List.filterMap_eq_nil_iff.2 fun _ _ => rfl
  rw [mentionsIn]
  split
  · rw [hpairs, List.map_filterMap]
    exact congrArg (List.filterMap · s.lines) (funext map_toPair_readVariable?)
  · split
    · rw [hlisted]
      rfl
    · rfl

theorem filterMap_pair?_mentions (text : List Char) :
    ((mentions text).filterMap Mention.pair?).map toPair = pairsOf text := by
  rw [mentions, List.filterMap_flatMap, List.map_flatMap, pairsOf]
  exact congrArg (List.flatMap · (Section.scan text)) (funext filterMap_pair?_mentionsIn)

/-- The variables of a document are its pairs, one for each and with their keys, values and flags,
and an empty secret one for each listed name that no variable had when it was read, all in the order
of the document.  A listed name never does more to the variables before it than to make one secret,
and a name that is listed again and again brings no more than one. -/
theorem entries_conserved (name : String) (text : List Char) :
    ((bringing [] (mentions text)).filterMap Mention.pair?).map toPair = pairsOf text ∧
    List.Forall₂ Kept ((bringing [] (mentions text)).map Mention.entry)
      (ofText name text).entries ∧
    (∀ (entries : List Variable) (secret : String × Bool),
      secret.1 ∈ entries.map (·.key) ∧ List.Forall₂ Kept entries (addSecret entries secret) ∨
      secret.1 ∉ entries.map (·.key) ∧
        addSecret entries secret = entries ++ [⟨secret.1, "", secret.2, true⟩]) ∧
    ∀ key, (bringing [] (mentions text)).countP (·.lists key) ≤ 1 := by
  refine ⟨?_, ?_, fun entries secret => ?_, fun key => ?_⟩
  · rw [filterMap_pair?_bringing, filterMap_pair?_mentions]
  · rw [entries_ofText]
    exact foldl_addMention_kept (mentions text) []
  · by_cases h : secret.1 ∈ entries.map (·.key)
    · exact .inl ⟨h, addSecret_kept h⟩
    · exact .inr ⟨h, addSecret_new h⟩
  · exact countP_lists_bringing key (mentions text) []

end Courier.Environment
