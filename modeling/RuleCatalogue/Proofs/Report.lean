import Mathlib.Data.List.Induction
import RuleCatalogue.Proofs.Encoding.Codec
import RuleCatalogue.Report
import RuleCatalogue.Settings.Validation

/-!
# Files that cannot be read

A file that cannot be opened, or in which the codec finds octets at fault, is listed in the report,
and the report on the others is as if it were not there (`Batch.ofFiles_reports`).

That is not so of every file.  A codec may find a fault without octets that are to blame for it, a
name may belong to a conversion that yields no text, and a path may have a NUL in it; each of these
breaks off the whole reading, and the files that can be read are lost with it
(`Batch.ofFiles_unmarked`).  Of the encodings that are worked out here only one does so, where the
byte order is to be taken from a mark and there is none (`Encoding.decode_error`).

## Main definitions

* `Source.failure?`, `Source.catalogue?` and `Source.breakdown?` are what one file gives, one of the
  three.
* `Report.mergeFiles` merges the rules of files that were read.

## Main results

* `Batch.ofFiles_reports`: what reading files gives, for every encoding that settings may name.
-/

namespace RuleCatalogue

/-! ## One file -/

namespace Source

section Codecs

variable [Codecs]

/-- Why a file is left out, if it is. -/
def failure? (name : String) (contents : Except FileError Octets) : Option ReadFailure :=
  match contents, TextCodec.ofName name with
  | .error e, _ => some (.unopenable e)
  | .ok octets, .ok codec =>
      match codec.decode octets with
      | .error (.undecodable e) => some (.undecodable e)
      | _ => none
  | .ok _, .error _ => none

/-- The rules of a file, if it is text. -/
def catalogue? (name : String) (contents : Except FileError Octets) : Option Catalogue :=
  match contents, TextCodec.ofName name with
  | .ok octets, .ok codec =>
      (codec.decode octets).toOption.map fun text => Catalogue.ofLines (lines text)
  | _, _ => none

/-- Why a file breaks off the whole reading, if it does. -/
def breakdown? (name : String) (contents : Except FileError Octets) : Option Breakdown :=
  match contents, TextCodec.ofName name with
  | .error (.nullInPath operation), _ => some (.path (.nullInPath operation))
  | .error _, _ => none
  | .ok octets, .ok codec =>
      match codec.decode octets with
      | .error (.unplaced reason) => some (.unplaced reason)
      | _ => none
  | .ok _, .error e => some (.encodingName e)

end Codecs

/-- **A file has a byte order mark** of two octets. -/
def HasMark (octets : Octets) : Prop :=
  [0xFF, 0xFE] <+: octets ∨ [0xFE, 0xFF] <+: octets

/-- **The byte order of a file is known**: from the encoding, or from a mark. -/
def OrderKnown (encoding : Encoding) (octets : Octets) : Prop :=
  encoding = .utf16 none → HasMark octets

/-- **A file that is readable or not in an encoding**: its path could be tried, and if it was
opened, its byte order is known. -/
structure Judgeable (encoding : Encoding) (contents : Except FileError Octets) : Prop where
  tried : ∀ operation, contents ≠ .error (.nullInPath operation)
  ordered : ∀ octets, contents = .ok octets → OrderKnown encoding octets

end Source

namespace Encoding

/-- A piece that is decoded without a look for a mark is at fault only by its octets. -/
theorem plainPiece_error {encoding : Encoding} {isLast : Bool} {position : Nat} {octets : Octets}
    {failure : DecodeFailure} (h : plainPiece encoding isLast position octets = .error failure) :
    ∃ e, failure = .undecodable e := by
  unfold plainPiece at h
  split at h
  · cases h
  · cases h
    exact ⟨_, rfl⟩

theorem next_of_plainPiece {encoding : Encoding} {isLast : Bool} {position : Nat} {octets : Octets}
    {piece : Piece} (h : plainPiece encoding isLast position octets = .ok piece) :
    piece.next = encoding := by
  unfold plainPiece at h
  split at h
  · cases h
    rfl
  · cases h

/-- **The byte order is known from a piece on**: the piece misses no mark, and what follows it is
decoded in an encoding that needs none. -/
structure Settled (decoded : Except DecodeFailure Piece) : Prop where
  error : ∀ failure, decoded = .error failure → ∃ e, failure = .undecodable e
  next : ∀ piece, decoded = .ok piece → piece.next ≠ .utf16 none

theorem settled_plainPiece {encoding : Encoding} (h : encoding ≠ .utf16 none) (isLast : Bool)
    (position : Nat) (octets : Octets) : Settled (plainPiece encoding isLast position octets) where
  error _ := plainPiece_error
  next _ hpiece := next_of_plainPiece hpiece ▸ h

theorem settled_of_ordered {encoding : Encoding} (h : encoding ≠ .utf16 none) (isLast : Bool)
    (octets : Octets) : Settled (encoding.decodePiece isLast octets) := by
  unfold decodePiece
  split
  · -- The mark of UTF-8 may be missing, so nothing is refused for its lack.
    split
    · refine ⟨nofun, fun piece hpiece => ?_⟩
      cases hpiece
      exact h
    · split
      · exact settled_plainPiece (by simp) isLast 0 _
      · exact settled_plainPiece (by simp) isLast 0 _
  · exact absurd rfl h
  · exact settled_plainPiece h isLast 0 octets

/-- Behind a mark the byte order is known. -/
theorem settled_of_hasMark {octets : Octets} (h : Source.HasMark octets) (isLast : Bool) :
    Settled ((utf16 none).decodePiece isLast octets) := by
  rcases h with ⟨rest, rfl⟩ | ⟨rest, rfl⟩
  · exact settled_plainPiece (by simp) isLast 2 rest
  · exact settled_plainPiece (by simp) isLast 2 rest

/-- Piece after piece, no mark is missed in an encoding that needs none. -/
theorem decodePieces_error {encoding : Encoding} (h : encoding ≠ .utf16 none) {left octets : Octets}
    {failure : DecodeFailure} (herror : encoding.decodePieces left octets = .error failure) :
    ∃ e, failure = .undecodable e := by
  fun_induction decodePieces encoding left octets with
  | case1 encoding left =>
    cases hdecoded : encoding.decodePiece true left with
    | ok piece => simp [hdecoded, Except.map] at herror
    | error e' =>
      have heq : e' = failure := by simpa [hdecoded, Except.map] using herror
      exact heq ▸ (settled_of_ordered h true left).error e' hdecoded
  | case2 encoding left octets hne e' hdecoded =>
    cases herror
    exact (settled_of_ordered h false _).error _ hdecoded
  | case3 encoding left octets hne piece hdecoded e' hrest ih =>
    cases herror
    exact ih ((settled_of_ordered h false _).next piece hdecoded) hrest
  | case4 => cases herror

/-- **A file whose byte order is known is text or not**; it does not break off the reading.
`Source.OrderKnown` fails only for the encoding that asks for a mark, on a file without one. -/
theorem decode_error {encoding : Encoding} {octets : Octets}
    (h : Source.OrderKnown encoding octets) {failure : DecodeFailure}
    (herror : encoding.decode octets = .error failure) : ∃ e, failure = .undecodable e := by
  by_cases hordered : encoding = .utf16 none
  · subst hordered
    have hmark := h rfl
    have hne : octets ≠ [] := by
      rcases hmark with ⟨rest, rfl⟩ | ⟨rest, rfl⟩ <;> simp
    -- The mark is in the first piece.
    have hfirst : Source.HasMark (octets.take pieceSize) := by
      rcases hmark with ⟨rest, rfl⟩ | ⟨rest, rfl⟩
      · exact Or.inl ⟨rest.take (pieceSize - 2), rfl⟩
      · exact Or.inr ⟨rest.take (pieceSize - 2), rfl⟩
    have hsettled := settled_of_hasMark hfirst false
    rw [decode, decodePieces, if_neg hne, List.nil_append] at herror
    cases hdecoded : (utf16 none).decodePiece false (octets.take pieceSize) with
    | error e' =>
      rw [hdecoded] at herror
      cases herror
      exact hsettled.error _ hdecoded
    | ok piece =>
      rw [hdecoded] at herror
      dsimp only at herror
      split at herror
      · next e' hrest =>
        cases herror
        exact decodePieces_error (hsettled.next piece hdecoded) hrest
      · cases herror
  · exact decodePieces_error hordered herror

end Encoding

namespace Source

variable [Codecs] {name : String}

omit [Codecs] in
/-- **A name that settings accept** has no NUL in it and stands for something.  Settings look at the
trimmed name, but the blanks around a name do not count, by `Codec.ofName?_trimmed`. -/
theorem of_checkValue_encoding {v : Value}
    (h : Settings.checkValue .encoding (.text name) = .ok v) :
    hasNull name = false ∧ ∃ codec, Codec.ofName? name = some codec := by
  unfold Settings.checkValue at h
  dsimp only at h
  split at h
  · cases h
  · split at h
    · cases h
    · next hfault =>
      simp only [Settings.textFault?, hasNull_trimmed, Codec.ofName?_trimmed] at hfault
      split at hfault
      · cases hfault
      · next hnull =>
        split at hfault
        · cases hfault
        · next hknown =>
          refine ⟨Bool.eq_false_iff.mpr hnull, Option.isSome_iff_exists.mp ?_⟩
          rwa [Option.isNone_iff_eq_none, ← ne_eq, Option.ne_none_iff_isSome] at hknown

/-- What finds a codec for a name that settings accept: every name but that of a conversion that
yields no text has one. -/
theorem ofName_of_checkValue {v : Value}
    (h : Settings.checkValue .encoding (.text name) = .ok v) :
    (Codec.ofName? name = some .notText ∧ TextCodec.ofName name = .error (.notText name))
      ∨ (Codec.ofName? name ≠ some .notText ∧ ∃ codec, TextCodec.ofName name = .ok codec) := by
  obtain ⟨hnull, codec, hcodec⟩ := of_checkValue_encoding h
  rw [TextCodec.ofName, hnull, if_neg Bool.false_ne_true, hcodec]
  cases codec with
  | notText => exact Or.inl ⟨rfl, rfl⟩
  | text encoding => exact Or.inr ⟨by simp, _, rfl⟩
  | hostNames => exact Or.inr ⟨by simp, _, rfl⟩
  | otherText first => exact Or.inr ⟨by simp, _, rfl⟩

/-- **When a file breaks off the reading**, under a name that settings accept: its path has a NUL in
it; or it can be opened and the name is that of a conversion that yields no text, or the codec finds
a fault that no octets are to blame for. -/
theorem breakdown?_eq_some_iff {v : Value}
    (hname : Settings.checkValue .encoding (.text name) = .ok v)
    (contents : Except FileError Octets) (breakdown : Breakdown) :
    breakdown? name contents = some breakdown
      ↔ (∃ operation, contents = .error (.nullInPath operation)
            ∧ breakdown = .path (.nullInPath operation))
        ∨ ∃ octets, contents = .ok octets
            ∧ ((Codec.ofName? name = some .notText ∧ breakdown = .encodingName (.notText name))
              ∨ ∃ codec reason, TextCodec.ofName name = .ok codec
                  ∧ codec.decode octets = .error (.unplaced reason)
                  ∧ breakdown = .unplaced reason) := by
  cases contents with
  | error e => cases e <;> simp [breakdown?, eq_comm]
  | ok octets =>
    rcases ofName_of_checkValue hname with ⟨hcodec, hfound⟩ | ⟨hcodec, codec, hfound⟩
    · simp [breakdown?, hcodec, hfound, eq_comm]
    · cases hdecoded : codec.decode octets with
      | ok text => simp [breakdown?, hcodec, hfound, hdecoded]
      | error e => cases e <;> simp [breakdown?, hcodec, hfound, hdecoded, eq_comm]

/-- **A file that is readable or not in an encoding** that is worked out here does not break off the
reading.  `Source.Judgeable` asks that its path could be tried, and that its byte order is known if
it was opened. -/
theorem breakdown?_of_judgeable {encoding : Encoding}
    (hname : Encoding.ofName? name = some encoding) {contents : Except FileError Octets}
    (h : Judgeable encoding contents) : breakdown? name contents = none := by
  have hfound := TextCodec.ofName_of_encoding hname
  cases contents with
  | error e =>
    cases e with
    | nullInPath operation => exact absurd rfl (h.tried operation)
    | refused fault place target => rfl
  | ok octets =>
    cases hdecoded : encoding.decode octets with
    | ok text => simp [breakdown?, hfound, TextCodec.ofEncoding, hdecoded]
    | error failure =>
      obtain ⟨e, rfl⟩ := Encoding.decode_error (h.ordered octets rfl) hdecoded
      simp [breakdown?, hfound, TextCodec.ofEncoding, hdecoded]

end Source

namespace Reading

variable [Codecs] {name : String}

/-- **What the reading of one file gives**: the reason why it breaks off everything, or the reason
why it is left out, or its rules. -/
theorem result_ofContents (hnull : hasNull name = false) (path : Path)
    (contents : Except FileError Octets) :
    (∃ breakdown, (ofContents name path contents).result = .error breakdown
        ∧ Source.breakdown? name contents = some breakdown)
      ∨ (∃ failure, (ofContents name path contents).result = .ok (.error failure)
        ∧ Source.breakdown? name contents = none
        ∧ Source.failure? name contents = some failure
        ∧ Source.catalogue? name contents = none)
      ∨ ∃ rules, (ofContents name path contents).result = .ok (.ok rules)
        ∧ Source.breakdown? name contents = none
        ∧ Source.failure? name contents = none
        ∧ Source.catalogue? name contents = some rules := by
  cases contents with
  | error e =>
    cases e with
    | nullInPath operation =>
      refine Or.inl ⟨.path (.nullInPath operation), ?_, rfl⟩
      simp [ofContents, Source.decodeLines, hnull]
    | refused fault place target =>
      refine Or.inr (Or.inl ⟨.unopenable (.refused fault place target), ?_, rfl, rfl, rfl⟩)
      simp [ofContents, Source.decodeLines, hnull]
  | ok octets =>
    cases hcodec : TextCodec.ofName name with
    | error e =>
      refine Or.inl ⟨.encodingName e, ?_, ?_⟩
      · simp [ofContents, Source.decodeLines, hnull, hcodec]
      · simp [Source.breakdown?, hcodec]
    | ok codec =>
      cases hdecoded : codec.decode octets with
      | ok text =>
        refine Or.inr (Or.inr ⟨Catalogue.ofLines (Source.lines text), ?_, ?_, ?_, ?_⟩)
        · simp [ofContents, Source.decodeLines, hnull, hcodec, hdecoded, ofLines, Catalogue.ofLines]
        · simp [Source.breakdown?, hcodec, hdecoded]
        · simp [Source.failure?, hcodec, hdecoded]
        · simp [Source.catalogue?, hcodec, hdecoded, Except.toOption]
      | error e =>
        cases e with
        | unplaced reason =>
          refine Or.inl ⟨.unplaced reason, ?_, ?_⟩
          · simp [ofContents, Source.decodeLines, hnull, hcodec, hdecoded]
          · simp [Source.breakdown?, hcodec, hdecoded]
        | undecodable e =>
          refine Or.inr (Or.inl ⟨.undecodable e, ?_, ?_, ?_, ?_⟩)
          · simp [ofContents, Source.decodeLines, hnull, hcodec, hdecoded]
          · simp [Source.breakdown?, hcodec, hdecoded]
          · simp [Source.failure?, hcodec, hdecoded]
          · simp [Source.catalogue?, hcodec, hdecoded, Except.toOption]

end Reading

/-! ## The report -/

namespace Report

/-- **The merging of files that were read**, each under the name of its file. -/
def mergeFiles (files : List (Path × Catalogue)) : Catalogue × List Conflict :=
  files.foldl
    (fun (merged, conflicts) (path, rules) =>
      let merging := merged.merge rules (some path.name)
      (merging.catalogue, conflicts ++ merging.conflicts))
    (∅, [])

theorem mergeFiles_snoc (files : List (Path × Catalogue)) (path : Path) (rules : Catalogue) :
    mergeFiles (files ++ [(path, rules)]) =
      let merging := (mergeFiles files).1.merge rules (some path.name)
      (merging.catalogue, (mergeFiles files).2 ++ merging.conflicts) := by
  rw [mergeFiles, List.foldl_append]
  rfl

theorem ofOutcomes_snoc (outcomes : List (Path × Outcome)) (path : Path) (outcome : Outcome) :
    (ofOutcomes (outcomes ++ [(path, outcome)])).1
      = ((ofOutcomes outcomes).1.add path outcome).1 := by
  rw [ofOutcomes, List.foldl_append]
  rfl

/-- Why a file is left out of a report, if it is. -/
def failureOf? (file : Path × Outcome) : Option (Path × ReadFailure) :=
  match file with
  | (path, .error failure) => some (path, failure)
  | (_, .ok _) => none

/-- The rules of a file, if it was read. -/
def rulesOf? (file : Path × Outcome) : Option (Path × Catalogue) :=
  match file with
  | (path, .ok rules) => some (path, rules)
  | (_, .error _) => none

@[simp] theorem failureOf?_error (path : Path) (failure : ReadFailure) :
    failureOf? (path, .error failure) = some (path, failure) := rfl

@[simp] theorem failureOf?_ok (path : Path) (rules : Catalogue) :
    failureOf? (path, .ok rules) = none := rfl

@[simp] theorem rulesOf?_error (path : Path) (failure : ReadFailure) :
    rulesOf? (path, .error failure) = none := rfl

@[simp] theorem rulesOf?_ok (path : Path) (rules : Catalogue) :
    rulesOf? (path, .ok rules) = some (path, rules) := rfl

/-- **A report accounts for its files**: all are named, each failure is listed once and in order,
and the rules and conflicts are those of the files that were read.  Nothing is asked of the
outcomes. -/
theorem ofOutcomes_accounts (outcomes : List (Path × Outcome)) :
    (ofOutcomes outcomes).1.files = outcomes.map Prod.fst
      ∧ (ofOutcomes outcomes).1.failures = outcomes.filterMap failureOf?
      ∧ ((ofOutcomes outcomes).1.catalogue, (ofOutcomes outcomes).1.conflicts)
          = mergeFiles (outcomes.filterMap rulesOf?) := by
  induction outcomes using List.reverseRecOn with
  | nil => exact ⟨rfl, rfl, rfl⟩
  | append_singleton earlier file ih =>
    obtain ⟨path, outcome⟩ := file
    obtain ⟨hfiles, hfailures, hmerged⟩ := ih
    obtain ⟨hcatalogue, hconflicts⟩ := Prod.ext_iff.mp hmerged
    rw [ofOutcomes_snoc, List.map_append, List.filterMap_append, List.filterMap_append]
    cases outcome with
    | error failure =>
      refine ⟨congrArg (· ++ [path]) hfiles, congrArg (· ++ [(path, failure)]) hfailures, ?_⟩
      simpa [add, List.filterMap_cons] using hmerged
    | ok rules =>
      refine ⟨congrArg (· ++ [path]) hfiles, ?_, ?_⟩
      · simpa [add, List.filterMap_cons] using hfailures
      · simp only [add, rulesOf?_ok, List.filterMap_cons, List.filterMap_nil, mergeFiles_snoc]
        rw [← hcatalogue, ← hconflicts]

end Report

namespace Batch

section Codecs

variable [Codecs] {name : String}

omit [Codecs] in
/-- **A batch gives the report on what its files gave**, if none broke off the reading.  `together`
tells whether several workers read them, and does not matter to the result. -/
theorem result_eq_ok_iff {together : Bool} {readings : List (Path × Reading)} {report : Report} :
    (ofReadings together readings).result = .ok report
      ↔ ∃ found, outcomes readings = .ok found ∧ (Report.ofOutcomes found).1 = report := by
  unfold ofReadings
  dsimp only
  cases outcomes readings with
  | error breakdown => simp
  | ok found => simp

/-- Files of which one breaks off the reading give nothing: the first such file is the end. -/
theorem outcomes_eq_error (hnull : hasNull name = false)
    {files : List (Path × Except FileError Octets)} {breakdown : Breakdown}
    (h : files.findSome? (fun file => Source.breakdown? name file.2) = some breakdown) :
    outcomes (files.map fun (path, contents) => (path, Reading.ofContents name path contents))
      = .error breakdown := by
  induction files with
  | nil => cases h
  | cons file rest ih =>
    obtain ⟨path, contents⟩ := file
    rcases Reading.result_ofContents hnull path contents with
      ⟨first, hresult, hbreaks⟩ | ⟨failure, hresult, hnone, -⟩ | ⟨rules, hresult, hnone, -⟩
    · have heq : first = breakdown := by simpa [List.findSome?_cons, hbreaks] using h
      simp [outcomes, hresult, heq]
    · have hrest := ih (by simpa [List.findSome?_cons, hnone] using h)
      simp [outcomes, hresult, hrest, Except.map]
    · have hrest := ih (by simpa [List.findSome?_cons, hnone] using h)
      simp [outcomes, hresult, hrest, Except.map]

/-- Files of which none breaks off the reading give one outcome each, in their order. -/
theorem outcomes_eq_ok (hnull : hasNull name = false)
    {files : List (Path × Except FileError Octets)}
    (h : ∀ file ∈ files, Source.breakdown? name file.2 = none) :
    ∃ found,
      outcomes (files.map fun (path, contents) => (path, Reading.ofContents name path contents))
          = .ok found
        ∧ found.map Prod.fst = files.map Prod.fst
        ∧ found.filterMap Report.failureOf?
            = files.filterMap (fun (path, contents) =>
                (Source.failure? name contents).map (path, ·))
        ∧ found.filterMap Report.rulesOf?
            = files.filterMap (fun (path, contents) =>
                (Source.catalogue? name contents).map (path, ·)) := by
  induction files with
  | nil => exact ⟨[], rfl, rfl, rfl, rfl⟩
  | cons file rest ih =>
    obtain ⟨path, contents⟩ := file
    obtain ⟨found, hfound, hpaths, hfailures, hrules⟩ :=
      ih fun other hother => h other (List.mem_cons_of_mem _ hother)
    have hnone : Source.breakdown? name contents = none := h _ List.mem_cons_self
    rcases Reading.result_ofContents hnull path contents with
      ⟨first, -, hbreaks⟩ | ⟨failure, hresult, -, hfailure, hnorules⟩
        | ⟨rules, hresult, -, hnofailure, hcatalogue⟩
    · rw [hnone] at hbreaks
      cases hbreaks
    · refine ⟨(path, .error failure) :: found, ?_, ?_, ?_, ?_⟩
      · simp [outcomes, hresult, hfound, Except.map]
      · simp [hpaths]
      · simp [hfailure, hfailures]
      · simp [List.filterMap_cons, hnorules, hrules]
    · refine ⟨(path, .ok rules) :: found, ?_, ?_, ?_, ?_⟩
      · simp [outcomes, hresult, hfound, Except.map]
      · simp [hpaths]
      · simp [List.filterMap_cons, hnofailure, hfailures]
      · simp [hcatalogue, hrules]

/-- **What reading files gives**, under every name of an encoding that settings accept, whatever the
codecs of the surroundings do and whatever the number of workers.

If some file breaks off the reading, the reason of the first such file is all that is left.
Otherwise there is a report: it names all files, lists each file that cannot be opened or decoded
once and in order, and has the rules and conflicts of the others.

A file breaks off the reading exactly if its path has a NUL in it, or if it can be opened and the
name is that of a conversion that yields no text or the codec faults no octets of it.  In an
encoding that is worked out here, only a file without a byte order mark does so, where the byte
order is to be taken from a mark. -/
theorem ofFiles_reports {v : Value} (hname : Settings.checkValue .encoding (.text name) = .ok v)
    (workers : Int) (files : List (Path × Except FileError Octets)) :
    (∀ breakdown,
        files.findSome? (fun file => Source.breakdown? name file.2) = some breakdown →
          (ofFiles name workers files).result = .error breakdown)
      ∧ ((∀ file ∈ files, Source.breakdown? name file.2 = none) →
          ∃ report, (ofFiles name workers files).result = .ok report
            ∧ report.files = files.map Prod.fst
            ∧ report.failures = files.filterMap (fun (path, contents) =>
                (Source.failure? name contents).map (path, ·))
            ∧ (report.catalogue, report.conflicts)
                = Report.mergeFiles (files.filterMap fun (path, contents) =>
                    (Source.catalogue? name contents).map (path, ·)))
      ∧ (∀ contents breakdown, Source.breakdown? name contents = some breakdown
          ↔ (∃ operation, contents = .error (.nullInPath operation)
                ∧ breakdown = .path (.nullInPath operation))
            ∨ ∃ octets, contents = .ok octets
                ∧ ((Codec.ofName? name = some .notText ∧ breakdown = .encodingName (.notText name))
                  ∨ ∃ codec reason, TextCodec.ofName name = .ok codec
                      ∧ codec.decode octets = .error (.unplaced reason)
                      ∧ breakdown = .unplaced reason))
      ∧ ∀ encoding contents, Encoding.ofName? name = some encoding →
          Source.Judgeable encoding contents → Source.breakdown? name contents = none := by
  obtain ⟨hnull, -⟩ := Source.of_checkValue_encoding hname
  refine ⟨fun breakdown hbreaks => ?_, fun hnone => ?_, Source.breakdown?_eq_some_iff hname,
    fun encoding contents hencoding => Source.breakdown?_of_judgeable hencoding⟩
  · simp only [ofFiles, ofReadings, outcomes_eq_error hnull hbreaks]
  · obtain ⟨found, hfound, hpaths, hfailures, hrules⟩ := outcomes_eq_ok hnull hnone
    obtain ⟨haccounted, hlisted, hmerged⟩ := Report.ofOutcomes_accounts found
    refine ⟨(Report.ofOutcomes found).1, ?_, haccounted.trans hpaths, hlisted.trans hfailures,
      hmerged.trans (congrArg Report.mergeFiles hrules)⟩
    simp only [ofFiles, ofReadings, hfound]

end Codecs

/-- The file with these octets, in the working directory. -/
abbrev fileNamed (name : String) (octets : Octets) : Path × Except FileError Octets :=
  (⟨.here, [name]⟩, .ok octets)

/-- In ISO 8859-6, one file of two has an octet that stands for nothing: it is listed, and the rule
of the other is there. -/
theorem ofFiles_reports_undecodable :
    ∃ report,
      (@ofFiles Codecs.arabic " ISO-8859-6" 2 [fileNamed "a.apt" [0xFF],
          fileNamed "b.apt" [0x2A, 0x20, 0x46, 0x6F, 0x6F]]).result = .ok report
        ∧ report.failures.map Prod.fst = [⟨.here, ["a.apt"]⟩]
        ∧ report.catalogue.keys = ["Foo"] := by
  have hname : Settings.checkValue .encoding (.text " ISO-8859-6") = .ok (.text "ISO-8859-6") := by
    rfl
  obtain ⟨-, hreports, -⟩ := @ofFiles_reports Codecs.arabic _ _ hname 2
    [fileNamed "a.apt" [0xFF], fileNamed "b.apt" [0x2A, 0x20, 0x46, 0x6F, 0x6F]]
  obtain ⟨report, hresult, _, hfailures, hmerged⟩ := hreports (by decide +kernel)
  refine ⟨report, hresult, ?_, ?_⟩
  · rw [hfailures]
    decide +kernel
  · have hcatalogue := congrArg (fun merged => merged.1.keys) hmerged
    dsimp only at hcatalogue
    rw [hcatalogue]
    decide +kernel

/-- **A file without a byte order mark breaks off everything** in the encoding that asks for one,
although settings may name this encoding, and although the other file can be read. -/
theorem ofFiles_unmarked :
    Settings.checkValue .encoding (.text "utf-16") = .ok (.text "utf-16")
      ∧ (@ofFiles Codecs.arabic "utf-16" 1 [fileNamed "a.apt" [0x2A, 0x20, 0x46, 0x6F],
          fileNamed "b.apt" [0xFF, 0xFE, 0x2A, 0x00, 0x20, 0x00, 0x46, 0x00, 0x6F, 0x00]]).result
          = .error (.unplaced "UTF-16 stream does not start with BOM") := by
  have hname : @TextCodec.ofName Codecs.arabic "utf-16"
      = .ok (TextCodec.ofEncoding (.utf16 none)) := rfl
  have hnull : hasNull "utf-16" = false := rfl
  have hdecoded : (Encoding.utf16 none).decode [0x2A, 0x20, 0x46, 0x6F]
      = .error Encoding.noByteOrderMark := by decide +kernel
  refine ⟨rfl, ?_⟩
  simp [ofFiles, ofReadings, outcomes, Reading.ofContents, Source.decodeLines, fileNamed, hnull,
    hname, TextCodec.ofEncoding, hdecoded, Encoding.noByteOrderMark]

end Batch

end RuleCatalogue
