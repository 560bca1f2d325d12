import Courier.Proofs.Collection.Mirror
import Courier.Proofs.Collection.Validity
import Courier.Proofs.Job.Running
import Courier.Proofs.Text.Cut
import Courier.Proofs.Text.Utf8
import Mathlib.Tactic.Common

/-!
# Three ways to one collection

A request can be converted from the text of its document, from a file that holds the text, and as the
only file of a tree.  Under one title all three come to the same collection (`conversions_agree`):

* A file is read with other line ends than it may have, but lines do not show how they are ended
  (`Request.ofText_unifyLineEnds`).
* In a tree the item is validated before the collection is, which leaves it as it is
  (`Collection.ofTree_single_ends`).
* Nothing but a log is written before the collection (`Job.ensures_convertDocument`).
-/

namespace Courier

open Script (Strategy)

/-! ## Line ends -/

namespace Text

/-- Lines do not show how they are ended. -/
theorem splitLinesFrom_unifyLineEnds (line : List Char) (begun : Bool) (s : List Char) :
    splitLinesFrom line begun (Disk.unifyLineEnds s) = splitLinesFrom line begun s := by
  induction s using Disk.unifyLineEnds.induct generalizing line begun with
  | case1 => rfl
  | case2 rest ih =>
    rw [Disk.unifyLineEnds, splitLinesFrom_newline, splitLinesFrom, ih]
  | case3 rest hrest ih =>
    rw [Disk.unifyLineEnds, splitLinesFrom_newline, splitLinesFrom, ih, if_pos (by decide)]
    · exact fun rest' _ => hrest rest'
    · exact fun rest' => hrest rest'
  | case4 c rest hpair hreturn ih =>
    rw [Disk.unifyLineEnds, splitLinesFrom, splitLinesFrom, ih, ih]
    · exact hpair
    · exact fun _ hc _ => hreturn hc
    · exact hpair
    · exact hreturn

end Text

theorem Request.ofText_unifyLineEnds (text : List Char) :
    ofText (Disk.unifyLineEnds text) = ofText text := by
  rw [ofText, ofText, Section.scan, Section.scan, Text.splitLines, Text.splitLines,
    Text.splitLinesFrom_unifyLineEnds]

theorem Disk.readText_of_fetch {d : Disk} {path : String} {text : List Char}
    (h : d.fetch path.toList = .ok (Text.Utf8.encode text)) :
    d.readText path = .ok (unifyLineEnds text) := by
  rw [readText, h, Except.mapError]
  change ((Text.Utf8.decode (Text.Utf8.encode text)).mapError _ >>= _) = _
  rw [Text.Utf8.decode_encode]
  rfl

variable {strategy : Strategy} {r : Request} {n : String}

/-! ## Trees of one file -/

/-- A title that is given counts, unless it is empty. -/
theorem titleOr_string (hn : n ≠ "") (name : String) : titleOr (.string n) name = .string n := by
  simp [titleOr, Json.isPresent, hn]

namespace Collection

variable {built : Built}

theorem joinAll_singleton (result : Except BuildFault Yield) : joinAll [result] = result := by
  rcases result with fault | y
  · rfl
  · simp [joinAll, Yield.append, Yield.empty, bind, Except.bind, pure, Except.pure]

/-- A tree that holds one request is built as the request is. -/
theorem buildTree_single_ends (o : Options) (folder directory : String) (shown : Option String)
    (name path : String) (r : Request) :
    Ends (buildTree o (.folder folder directory shown [.file name path (some r)]))
      (yieldOf o path r) := by
  have harrange : arrange (childList o [.file name path (some r)]) = [buildRequest o path r] := by
    simp [arrange, childList, child]
  rw [buildTree, harrange, ← joinAll_singleton (yieldOf o path r)]
  exact runAll_ends (.cons (buildRequest_ends o path r) .nil)

/-- The collection of a tree that holds one request has the item of the request alone. -/
theorem ofTree_single_ends (hn : n ≠ "")
    (hbuilt : itemOf strategy r.metadata.name r = .ok built) (leaveOut : Bool)
    (folder directory : String) (shown : Option String) (name path : String) :
    Ends (ofTree ⟨strategy, validateItem, leaveOut⟩ (.string n)
        (.folder folder directory shown [.file name path (some r)]))
      (.ok (collectionJson (.string n) [built.item], [])) := by
  have hnormal := normal_itemOf hbuilt
  have hyield : yieldOf ⟨strategy, validateItem, true⟩ path r =
      .ok ⟨[.request built.item], built.warnings, []⟩ := by
    simp only [yieldOf, hbuilt, validateItem_of_normal hnormal]
  have hbuild := ofBuilding_ends
    (buildTree_single_ends ⟨strategy, validateItem, true⟩ folder directory shown name path r)
  rw [hyield] at hbuild
  refine .bind hbuild (.bind (.lift (Logging.yields_reportAll _ _)) ?_)
  rw [titleOr_string hn]
  exact .bind (finish_ends hn (List.forall_mem_singleton.2 hnormal)) (.pure _)

end Collection

/-! ## Files -/

namespace Job

open Discovery (hasExtension)

variable {s : Surroundings} {p : Progress} {document : String} {text : List Char}

/-- The output beside a document is a JSON file. -/
theorem checkOutput_outputBeside (document : String) :
    checkOutput (outputBeside document) = .ok () := by
  have hends : collectionSuffix.toList <:+ (outputBeside document).toList := by
    rw [outputBeside, Path.toList_under, String.toList_append]
    exact (List.suffix_append _ _).trans (Path.suffix_join _ _)
  have hjson : ".json".toList <:+ collectionSuffix.toList.map Char.toLower := by decide
  rw [checkOutput, if_pos (List.isSuffixOf_iff_suffix.2 (hjson.trans (hends.map _)))]

/-- A document that holds a text can be converted to an output.  The log file, if there is one, is
called otherwise, and does not keep the output from being written. -/
structure Convertible (s : Surroundings) (p : Progress) (document output : String)
    (text : List Char) : Prop where
  isDocument : hasExtension document = true
  isOutput : checkOutput output = .ok ()
  logged : ∀ file ∈ s.logged, Path.baseName file ≠ Path.baseName document.toList ∧
    Path.baseName file ≠ Path.baseName output.toList
  fetch : p.disk.fetch document.toList = .ok (Text.Utf8.encode text)
  accepts : ∀ d, s.Untouched p.disk d → d.Accepts output

theorem Convertible.of_unlogged {output : String} (hlog : s.logFile = none)
    (hdocument : hasExtension document = true) (houtput : checkOutput output = .ok ())
    (hfetch : p.disk.fetch document.toList = .ok (Text.Utf8.encode text))
    (haccepts : p.disk.Accepts output) : Convertible s p document output text where
  isDocument := hdocument
  isOutput := houtput
  logged file hfile := by cases hlog.symm.trans hfile
  fetch := hfetch
  accepts d hd := by rwa [hd.eq_of_none hlog]

/-- The document is converted, and its collection is returned and written. -/
theorem ensures_convertDocument {output : Option String} {title collection : Json}
    {warnings : List String}
    (h : Convertible s p document (outputOr output (outputBeside document)) text)
    (hr : Request.ofText text = .ok r) (hlegible : collection.Legible)
    (hcollection : Ends (Collection.ofRequest strategy title r) (.ok (collection, warnings))) :
    Ensures s p (convertDocument strategy output title document) fun result q =>
      result = .ok ⟨collection, outputOr output (outputBeside document), warnings⟩ ∧
        q.disk.HoldsJson (outputOr output (outputBeside document)) collection := by
  have hparse := Collection.parse_ends (Disk.unifyLineEnds text)
  rw [Request.ofText_unifyLineEnds, hr] at hparse
  have hinput : checkInput document = .ok () := if_pos h.isDocument
  rw [convertDocument]
  refine ensures_ofExcept_bind (fun _ _ => ?_) (by simp [hinput])
  refine ensures_reportEntries_bind fun q hq => ?_
  rw [readRequest, bind_assoc]
  have hread : q.disk.readText document = .ok (Disk.unifyLineEnds text) :=
    hq.changes.readText (Disk.readText_of_fetch h.fetch) fun file hfile => (h.logged file hfile).1
  refine ensures_readText_bind (fun text' htext' => ?_) (by simp [hread])
  cases hread.symm.trans htext'
  refine ensures_ofConverting_bind hparse fun q₁ hq₁ => ?_
  refine ensures_reportEntries_bind fun q₂ hq₂ => ?_
  refine ensures_ofExcept_bind (fun _ _ => ?_) (by simp [h.isOutput])
  refine ensures_ofConverting_bind hcollection fun q₃ hq₃ => ?_
  have haccepts := h.accepts q₃.disk (hq.trans (hq₁.trans (hq₂.trans hq₃)))
  refine (ensures_writeJson_of_accepts haccepts hlegible).bind (fun _ q₄ hq₄ => ?_) (by simp)
  refine ensures_reportEntries_bind fun q₅ hq₅ => ?_
  refine .pure ⟨rfl, ?_⟩
  exact hq₄.2.of_changes hq₅.changes fun file hfile => (h.logged file hfile).2

/-- A document that can be read, with an address that can be taken apart, is converted under a title
in three ways, and all of them succeed with the same collection: that of its text, that of a file
which holds the text, which is also what the written file holds, and that of a tree which holds the
request alone.
The collection has the title and one item.  Both are valid as they are, so that it makes no
difference that only in the tree the item is validated before the collection. -/
theorem conversions_agree (strategy : Strategy) (hn : n ≠ "") {url : Url}
    (hr : Request.ofText text = .ok r) (hurl : Url.ofText r.url.toList = .ok url) :
    ∃ item warnings collection, collection = Collection.collectionJson (.string n) [item] ∧
      Ends (Collection.ofText strategy (.string n) text) (.ok collection) ∧
      (∀ s p document output,
        Convertible s p document (outputOr output (outputBeside document)) text →
        ∃ q, runFrom (convertDocument strategy output (.string n) document) s p =
            (.ok ⟨collection, outputOr output (outputBeside document), warnings⟩, q) ∧
          q.disk.HoldsJson (outputOr output (outputBeside document)) collection) ∧
      (∀ leaveOut folder directory shown name path,
        Ends (Collection.ofTree ⟨strategy, Collection.validateItem, leaveOut⟩ (.string n)
          (.folder folder directory shown [.file name path (some r)])) (.ok (collection, []))) ∧
      Collection.validateItem item = .ok item ∧
      Collection.validateCollection collection = .ok collection := by
  obtain ⟨built, hbuilt⟩ := Collection.itemOf_of_ofText strategy r.metadata.name hurl
  have htitle : titleOr (.string n) r.metadata.name = .string n := titleOr_string hn _
  have hnormal := Collection.normal_itemOf hbuilt
  have hvalid := Collection.validateCollection_of_normal
    (Collection.normal_collectionJson hn (List.forall_mem_singleton.2 hnormal))
  refine ⟨built.item, built.warnings, _, rfl, ?text, ?file, ?tree, ?item, hvalid⟩
  case text => exact Collection.ofText_titled_ends hr hbuilt htitle hn
  case file =>
    intro s p document output h
    have hensures :=
      ensures_convertDocument h hr (Collection.legible_of_validateCollection hvalid)
        (Collection.ofRequest_ends hbuilt htitle hn)
    rw [Ensures] at hensures
    exact ⟨_, Prod.ext hensures.1 rfl, hensures.2⟩
  case tree => exact Collection.ofTree_single_ends hn hbuilt
  case item => exact Collection.validateItem_of_normal hnormal

/-- A document whose lines end in a carriage return and a line feed. -/
def pingDocument : List Char :=
  ("meta \x7b\r\n  name: Ping\r\n  type: http\r\n\x7d\r\n" ++
    "get \x7b\r\n  url: \x7b\x7bhost\x7d\x7d/ping\r\n\x7d\r\n").toList

/-- A disk with the document alone. -/
def pingDisk : Disk where
  root := .directory [("ping.bru", .file (Text.Utf8.encode pingDocument))]
  cwd := []

/-- Surroundings without a log file. -/
def pingSurroundings : Surroundings where
  clock := "12:00:00"
  duration := ⟨0⟩
  languages := []
  stamp _ := ⟨"1", "2"⟩
  key := none
  reply _ := .failure "offline"
  logFile := none

theorem convertible_ping :
    Convertible pingSurroundings ⟨pingDisk, [], []⟩ "ping.bru" (outputBeside "ping.bru")
      pingDocument :=
  .of_unlogged rfl (by decide) (checkOutput_outputBeside "ping.bru") rfl fun _ => rfl

theorem conversions_agree_ping :
    Request.ofText pingDocument = .ok (Collection.pingRequest "Ping") ∧
    ∃ collection warnings q,
      Ends (Collection.ofText .textual (.string "API") pingDocument) (.ok collection) ∧
      runFrom (convertDocument .textual none (.string "API") "ping.bru") pingSurroundings
        ⟨pingDisk, [], []⟩ = (.ok ⟨collection, outputBeside "ping.bru", warnings⟩, q) ∧
      q.disk.HoldsJson (outputBeside "ping.bru") collection ∧
      Ends (Collection.ofTree ⟨.textual, Collection.validateItem, true⟩ (.string "API")
        (.folder "api" "api" none
          [.file "ping.bru" "api/ping.bru" (some (Collection.pingRequest "Ping"))]))
        (.ok (collection, [])) := by
  have hrequest : Request.ofText pingDocument = .ok (Collection.pingRequest "Ping") := by
    decide +kernel
  have hurl : Url.ofText (Collection.pingRequest "Ping").url.toList =
      .ok (Url.splitPlainly (Collection.pingRequest "Ping").url.toList) := by decide +kernel
  obtain ⟨item, warnings, collection, -, htext, hfile, htree, -, -⟩ :=
    conversions_agree .textual (n := "API") (by decide) hrequest hurl
  obtain ⟨q, hrun, hread⟩ := hfile pingSurroundings _ "ping.bru" none convertible_ping
  exact ⟨hrequest, collection, warnings, q, htext, hrun, hread, htree true _ _ _ _ _⟩

end Job

end Courier
