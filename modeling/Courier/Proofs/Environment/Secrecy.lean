import Courier.Environment.Basic
import Courier.Proofs.Collection.Normal
import Mathlib.Tactic.Common

/-!
# Secret variables

The document of an environment is a run of mentions: pairs, each of which is a variable of its own,
and names that are listed to be kept secret.  A listed name reaches the last variable of that name
that has been read by then, so whether a variable ends up secret depends on what is mentioned after
it.

* `entries_ofText`: the variables of a document come from its mentions, one after the other.
* `flags_addMention` and `forall_flags_foldl`: what one mention and what a whole run of them do to
  the variables of a name.
* `exported_eq`: an environment is never rejected when it is exported.
* `exported_secret_iff`: all variables of a name are secret, and are exported as secrets, exactly if
  every pair of that name is marked or the name is listed after it and before the next such pair.
* `exported_plain_listed`: listing a name before its pair is not enough.
-/

namespace Courier.Environment

/-! ## Mentions -/

/-- A pair of a document, or a name in one of its lists. -/
inductive Mention where
  | pair (v : Variable)
  | listed (secret : String × Bool)
  deriving DecidableEq, Repr

/-- What a section mentions. -/
def mentionsIn (s : Section) : List Mention :=
  if s.name = "vars" then (s.lines.filterMap readVariable?).map .pair
  else if s.name = "vars:secret" then (s.lines.flatMap readSecretNames).map .listed
  else []

/-- What a document mentions, in order. -/
def mentions (text : List Char) : List Mention := (Section.scan text).flatMap mentionsIn

/-- Adds what is mentioned to the variables before it. -/
def addMention (entries : List Variable) : Mention → List Variable
  | .pair v => entries ++ [v]
  | .listed secret => addSecret entries secret

theorem foldl_addMention_pairs (vs entries : List Variable) :
    (vs.map .pair).foldl addMention entries = entries ++ vs := by
  induction vs generalizing entries with
  | nil => simp
  | cons v vs ih => simp [addMention, ih]

theorem addSection_eq_foldl (entries : List Variable) (s : Section) :
    addSection entries s = (mentionsIn s).foldl addMention entries := by
  rw [addSection, mentionsIn]
  split
  · rw [foldl_addMention_pairs]
  · split
    · rw [List.foldl_map]
      rfl
    · rfl

theorem entries_ofText (name : String) (text : List Char) :
    (ofText name text).entries = (mentions text).foldl addMention [] := by
  rw [mentions, List.foldl_flatMap]
  exact congrArg (fun step => (Section.scan text).foldl step [])
    (funext₂ addSection_eq_foldl)

/-! ## The variables of one name -/

/-- Which of the variables of a name are secret, in order. -/
def flags (key : String) (entries : List Variable) : List Bool :=
  (entries.filter (·.key = key)).map (·.secret)

theorem forall_flags {key : String} {entries : List Variable} :
    (∀ flag ∈ flags key entries, flag = true) ↔
      ∀ v ∈ entries, v.key = key → v.secret = true := by
  simp [flags]

theorem flags_append (key : String) (entries more : List Variable) :
    flags key (entries ++ more) = flags key entries ++ flags key more := by
  simp [flags]

theorem flags_cons (key : String) (v : Variable) (entries : List Variable) :
    flags key (v :: entries) =
      if v.key = key then v.secret :: flags key entries else flags key entries := by
  by_cases h : v.key = key <;> simp [flags, h]

theorem flags_eq_nil {key : String} {entries : List Variable} (h : ∀ v ∈ entries, v.key ≠ key) :
    flags key entries = [] := by
  rw [flags, List.map_eq_nil_iff, List.filter_eq_nil_iff]
  simpa using h

theorem ne_of_markLast?_eq_none {key : String} {entries : List Variable}
    (h : markLast? key entries = none) : ∀ v ∈ entries, v.key ≠ key := by
  induction entries with
  | nil => simp
  | cons v entries ih =>
    rw [markLast?] at h
    split at h
    · cases h
    · rename_i hrest
      split at h
      · cases h
      · rename_i hkey
        exact List.forall_mem_cons.2 ⟨hkey, ih hrest⟩

/-- Marking reaches the last variable of its name and changes nothing else. -/
theorem markLast?_eq_some {key : String} {entries marked : List Variable}
    (h : markLast? key entries = some marked) :
    ∃ before v after, entries = before ++ v :: after ∧ v.key = key ∧
      (∀ w ∈ after, w.key ≠ key) ∧ marked = before ++ { v with secret := true } :: after := by
  induction entries generalizing marked with
  | nil => cases h
  | cons v entries ih =>
    rw [markLast?] at h
    split at h
    · rename_i rest hrest
      obtain ⟨before, w, after, rfl, hw, hafter, rfl⟩ := ih hrest
      cases h
      exact ⟨v :: before, w, after, rfl, hw, hafter, rfl⟩
    · rename_i hrest
      split at h
      · rename_i hkey
        cases h
        exact ⟨[], v, entries, rfl, hkey, ne_of_markLast?_eq_none hrest, rfl⟩
      · cases h

/-- Listing a name makes its last variable secret, or its first one when there is none yet. -/
theorem flags_addSecret (key : String) (entries : List Variable) (secret : String × Bool) :
    flags key (addSecret entries secret) =
      if secret.1 = key then (flags key entries).dropLast ++ [true] else flags key entries := by
  obtain ⟨name, enabled⟩ := secret
  rw [addSecret]
  rcases hmark : markLast? name entries with _ | marked
  · rw [Option.getD_none, flags_append, flags_cons]
    by_cases h : name = key
    · subst h
      rw [flags_eq_nil (ne_of_markLast?_eq_none hmark)]
      simp [flags]
    · simp [flags, h]
  · obtain ⟨before, v, after, rfl, rfl, hafter, rfl⟩ := markLast?_eq_some hmark
    rw [Option.getD_some, flags_append, flags_cons, flags_append, flags_cons]
    by_cases h : v.key = key
    · subst h
      simp [flags_eq_nil hafter]
    · simp [h]

theorem flags_addMention (key : String) (entries : List Variable) (m : Mention) :
    flags key (addMention entries m) =
      match m with
      | .pair v => if v.key = key then flags key entries ++ [v.secret] else flags key entries
      | .listed secret =>
        if secret.1 = key then (flags key entries).dropLast ++ [true] else flags key entries := by
  cases m with
  | pair v =>
    rw [addMention, flags_append, flags_cons]
    by_cases h : v.key = key <;> simp [flags, h]
  | listed secret => exact flags_addSecret key entries secret

/-! ## Guarded names -/

/-- A name is listed before its next pair. -/
def ListedNext (key : String) : List Mention → Prop
  | [] => False
  | .pair v :: rest => v.key ≠ key ∧ ListedNext key rest
  | .listed secret :: rest => secret.1 = key ∨ ListedNext key rest

/-- Every pair of a name is marked, or the name is listed before its next pair. -/
def Guarded (key : String) : List Mention → Prop
  | [] => True
  | .pair v :: rest => (v.key = key → v.secret = true ∨ ListedNext key rest) ∧ Guarded key rest
  | .listed _ :: rest => Guarded key rest

theorem forall_iff_dropLast {bits : List Bool} :
    (∀ bit ∈ bits, bit = true) ↔
      (∀ bit ∈ bits.dropLast, bit = true) ∧ bits.getLast? ≠ some false := by
  rcases List.eq_nil_or_concat bits with rfl | ⟨front, last, rfl⟩
  · simp
  · simp [or_imp, forall_and]

/-- Whether the variables of a name are secret after a run of mentions.  Of those before the run,
only the last one can still be reached. -/
theorem forall_flags_foldl (key : String) (ms : List Mention) (entries : List Variable) :
    (∀ flag ∈ flags key (ms.foldl addMention entries), flag = true) ↔
      (∀ flag ∈ (flags key entries).dropLast, flag = true) ∧
      ((flags key entries).getLast? ≠ some false ∨ ListedNext key ms) ∧ Guarded key ms := by
  induction ms generalizing entries with
  | nil =>
    rw [List.foldl_nil, forall_iff_dropLast]
    simp [ListedNext, Guarded]
  | cons m ms ih =>
    rw [List.foldl_cons, ih, flags_addMention]
    cases m with
    | pair v =>
      by_cases h : v.key = key
      · simp only [h, if_true, List.dropLast_concat, List.getLast?_concat, ListedNext, Guarded]
        rw [forall_iff_dropLast]
        simp [and_assoc]
      · simp [h, ListedNext, Guarded]
    | listed secret =>
      by_cases h : secret.1 = key
      · simp [h, ListedNext, Guarded]
      · simp [h, ListedNext, Guarded]

/-! ## Exported environments -/

theorem normal_valueJson (v : Variable) :
    Schema.Normal Collection.Model.catalog (valueJson v) (.record .environmentValue) := by
  have htype : (if v.secret then "secret" else "default") ∈ ["default", "secret"] := by
    split <;> decide
  exact Collection.normal_record nofun <|
    .given (Schema.normal_text v.key) nofun <| .given (Schema.normal_text v.value) nofun <|
    .given (Schema.normal_flag v.enabled) nofun <|
    .given (Collection.normal_word htype) nofun .nil

theorem normal_toJson (stamp : Stamp) (e : Environment) :
    Schema.Normal Collection.Model.catalog (e.toJson stamp) (.record .environment) := by
  have hvalues : Schema.Normal Collection.Model.catalog (.array (e.entries.map valueJson))
      (.list (.record .environmentValue)) := Schema.normal_list fun item hitem => by
    obtain ⟨v, -, rfl⟩ := List.mem_map.1 hitem
    exact normal_valueJson v
  exact Collection.normal_record nofun <|
    .given (Schema.normal_text stamp.id) nofun <| .given (Schema.normal_text e.name) nofun <|
    .given hvalues nofun <| .given (Collection.normal_word (by decide)) nofun <|
    .given (Schema.normal_text stamp.time) nofun <|
    .given (Schema.normal_text exporter) nofun .nil

/-- An environment is exported as it is written. -/
theorem exported_eq (stamp : Stamp) (e : Environment) :
    e.exported stamp = .ok (e.toJson stamp) := by
  rw [exported, Collection.validateEnvironment, Schema.validate, normal_toJson]
  rfl

theorem get?_key_valueJson (v : Variable) : (valueJson v).get? "key" = some (.string v.key) := rfl

theorem get?_type_valueJson (v : Variable) :
    (valueJson v).get? "type" = some (.string (if v.secret then "secret" else "default")) := rfl

/-- The values of a written environment under a name are secrets exactly if its variables of that
name are secret. -/
theorem forall_values_iff (key : String) (entries : List Variable) :
    (∀ value ∈ entries.map valueJson, value.get? "key" = some (.string key) →
        value.get? "type" = some (.string "secret")) ↔
      ∀ v ∈ entries, v.key = key → v.secret = true := by
  simp [get?_key_valueJson, get?_type_valueJson]

/-- All variables that a document gives a name are secret exactly if every pair of that name is
marked as secret or followed by a listing of the name before the next such pair.  The environment is
always exported, and the same holds of what is exported. -/
theorem exported_secret_iff (name : String) (text : List Char) (key : String) (stamp : Stamp) :
    ((∀ v ∈ (ofText name text).entries, v.key = key → v.secret = true) ↔
      Guarded key (mentions text)) ∧
    ∃ json values, (ofText name text).exported stamp = .ok json ∧
      json.get? "values" = some (.array values) ∧
      ((∀ value ∈ values, value.get? "key" = some (.string key) →
          value.get? "type" = some (.string "secret")) ↔ Guarded key (mentions text)) := by
  have hentries : (∀ v ∈ (ofText name text).entries, v.key = key → v.secret = true) ↔
      Guarded key (mentions text) := by
    rw [← forall_flags, entries_ofText, forall_flags_foldl]
    simp [flags]
  refine ⟨hentries, _, (ofText name text).entries.map valueJson, exported_eq stamp _, rfl, ?_⟩
  rw [forall_values_iff]
  exact hentries

/-- A document that lists a name before its pair. -/
def earlyListing : List Char :=
  "vars:secret [\n  token\n]\nvars \x7b\n  token: x\n\x7d\n".toList

/-- The pair of a name that has been listed before it is a plain variable, and is exported as
one. -/
theorem exported_plain_listed :
    .listed ("token", true) ∈ mentions earlyListing ∧
    (∃ v ∈ (ofText "dev" earlyListing).entries, v.key = "token" ∧ v.secret = false) ∧
    ∃ json values, (ofText "dev" earlyListing).exported ⟨"1", "2"⟩ = .ok json ∧
      json.get? "values" = some (.array values) ∧
      ∃ value ∈ values, value.get? "key" = some (.string "token") ∧
        value.get? "type" = some (.string "default") := by
  have hentries : (ofText "dev" earlyListing).entries =
      [⟨"token", "", true, true⟩, ⟨"token", "x", true, false⟩] := by decide +kernel
  refine ⟨by decide +kernel, ?_, _, _, exported_eq _ _, rfl, ?_⟩
  · rw [hentries]
    exact ⟨_, List.mem_cons_of_mem _ List.mem_cons_self, rfl, rfl⟩
  · rw [hentries]
    exact ⟨_, List.mem_cons_of_mem _ List.mem_cons_self, rfl, rfl⟩

end Courier.Environment
