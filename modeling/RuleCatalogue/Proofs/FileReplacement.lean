import RuleCatalogue.Proofs.Encoding.Codec
import RuleCatalogue.Proofs.Files

/-!
# A file that is replaced

Replacing a file is all or nothing: the target holds the new contents afterwards, or every place
holds what it held; directories may be new along the path.  The new contents are what an encoder
puts out for a text.  For most encodings this is the text; the encoder for names of hosts holds back
what follows the last point, and nobody asks for it.

## Main definitions

* `Files.Replaceable` is what it takes to replace a file.
* `Files.AllOrNothing` is what holds of the places before and after.

## Main statements

* `Files.exists_run_replaceContents`: what can be replaced is replaced.
* `Files.allOrNothing_replaceText`: all or nothing, and which texts are written as a whole.
* `Files.replaceText_hostNames_open`: a text that is not.

## Design notes

The run is followed by triples (`Proofs/Files`), which say what may have changed; that something
does change, where nothing is in the way, is shown by computing the run (`exists_run_stageAndMove`).
`AllOrNothing` puts the two together and speaks of places before and after, not of the run.
-/

namespace RuleCatalogue

open Machine Workspace FileTree

theorem Path.not_hasNull_iff {p : Path} :
    ¬ p.hasNull ↔ ∀ segment ∈ p.segments, '\x00' ∉ segment.toList := by
  simp [Path.hasNull]

namespace Workspace

variable {w v : Workspace} {start goal : Place} {staged target : Path} {octets : Octets}

/-- A path that goes on from a directory by a name leads to the place of that name in it. -/
theorem locate_of_endsInName (hparent : w.isDirectory target.parent) (hname : endsInName target) :
    ∃ goal, w.locate target = .ok goal := by
  obtain ⟨place, hplace, hdirectory⟩ := isDirectory_iff.mp hparent
  obtain ⟨anchor, segments⟩ := target
  cases hlast : segments.getLast? with
  | none => simp [endsInName, hlast] at hname
  | some segment =>
    obtain ⟨init, rfl⟩ := List.getLast?_eq_some_iff.mp hlast
    rw [Path.parent, List.dropLast_concat] at hplace
    exact ⟨_, locate_snoc_eq_ok.mpr ⟨place, hplace, hdirectory, rfl⟩⟩

/-- A spare file can be moved to a path that ends in a name and leads to no directory. -/
theorem Staged.exists_rename (h : Staged w start octets v) (hstart : w.locate staged = .ok start)
    (hgoal : w.locate target = .ok goal) (hplain : w.tree.get? goal ≠ some .directory)
    (hstaged : endsInName staged) (htarget : endsInName target) :
    ∃ after, v.rename staged target = .ok after := by
  have hsource : v.tree.get? start = some (.file octets) := by
    rw [h.get?, if_pos rfl]
  have hentry : v.tree.get? goal ≠ some .directory := by
    rw [h.get?]
    split
    · exact nofun
    · exact hplain
  unfold rename
  rw [(h.locate staged start).mpr hstart, (h.locate target goal).mpr hgoal]
  simp only [hstaged, htarget, Bool.not_true, Bool.or_false, Bool.false_eq_true, if_false, hsource]
  cases hget : v.tree.get? goal with
  | none => exact ⟨_, rfl⟩
  | some entry =>
    cases entry with
    | file _ => exact ⟨_, rfl⟩
    | directory => exact absurd hget hentry

end Workspace

namespace Files

variable {α : Type} {machine : Machine} {target p : Path}

/-! ## Steps that are done -/

theorem run_attempt_of_ok {f : Workspace → Except FileFault Workspace} {w : Workspace}
    (h : f machine.toWorkspace = .ok w) :
    (attempt f).run machine = (.ok (), { machine with toWorkspace := w }) := by
  rw [run_attempt, h]

theorem run_onPath {operation : Option String} {action : Path → StateM Machine (Except FileFault α)}
    {result : Except FileFault α} {next : Machine} (hnull : ¬ p.hasNull)
    (h : (action p).run machine = (result, next)) :
    (onPath operation p action).run machine
      = (result.mapError fun fault => .refused fault p none, next) := by
  rw [onPath, if_neg hnull, StateT.run_bind, h]
  cases result <;> rfl

theorem run_checkSteps {anchor : Anchor} {before steps : List String} {here place : Place}
    (hlocate : machine.locate ⟨anchor, before⟩ = .ok here)
    (hfollow : machine.tree.follow here steps = .ok place)
    (hheld : machine.tree.get? place ≠ none)
    (hnull : ∀ s ∈ before ++ steps, '\x00' ∉ s.toList) :
    (checkSteps anchor before steps : StateM Machine _).run machine = (.ok (), machine) := by
  induction steps generalizing before here with
  | nil => rfl
  | cons segment rest ih =>
    obtain ⟨hdirectory, hrest⟩ := follow_cons_eq_ok.mp hfollow
    have hpush := locate_push hlocate hdirectory segment
    have hplain : ∀ s ∈ Path.push (anchor != .here) before segment ++ rest, '\x00' ∉ s.toList := by
      intro s hs
      rcases List.mem_append.mp hs with hs | hs
      · rcases Path.mem_push hs with hs | rfl
        · exact hnull s (List.mem_append_left _ hs)
        · exact hnull s (List.mem_append_right _ List.mem_cons_self)
      · exact hnull s (List.mem_append_right _ (List.mem_cons_of_mem _ hs))
    have hgo := ih hpush hrest hplain
    unfold checkSteps
    dsimp only
    split
    · exact hgo
    · next hname =>
      have hreached : machine.check ⟨anchor, Path.push (anchor != .here) before segment⟩
          = .ok () := by
        obtain ⟨entry, hentry⟩ := Option.ne_none_iff_exists'.mp (held_of_follow hrest hheld)
        rw [check, find_eq_ok_iff.mpr ⟨hpush, hentry⟩]
        rfl
      have hreachedNull : ¬ (⟨anchor, Path.push (anchor != .here) before segment⟩ : Path).hasNull :=
        Path.not_hasNull_iff.mpr fun s hs => hplain s (List.mem_append_left _ hs)
      have hcheck : StateT.run (Host.check
            ⟨anchor, Path.push (anchor != .here) before segment⟩ :
            StateM Machine (Except FileFault Unit)) machine = (.ok (), machine) :=
        congrArg (·, machine) hreached
      rw [StateT.run_bind, run_onPath hreachedNull hcheck]
      exact hgo

/-- A directory that is there need not be made. -/
theorem run_makeDirectories_of_isDirectory (hnull : ¬ p.hasNull) (h : machine.isDirectory p) :
    (makeDirectories p : StateM Machine _).run machine = (.ok (), machine) := by
  obtain ⟨place, hplace, hdirectory⟩ := isDirectory_iff.mp h
  have hmake : machine.toWorkspace.makeDirectory p = .error .alreadyExists := by
    rw [makeDirectory, addNew, hplace]
    simp only [hdirectory]
  have hrefused : StateT.run (Host.makeDirectory p : StateM Machine (Except FileFault Unit)) machine
      = (.error .alreadyExists, machine) :=
    (run_attempt _ machine).trans (by rw [hmake])
  have hlook : StateT.run (isDirectory p : StateM Machine Bool) machine = (true, machine) := by
    rw [isDirectory, if_neg hnull]
    exact congrArg (·, machine) h
  rw [makeDirectories, StateT.run_bind, run_onPath hnull hrefused]
  show StateT.run ((isDirectory p : StateM Machine Bool) >>= _) machine = _
  rw [StateT.run_bind, hlook]
  rfl

/-! ## When a file can be replaced -/

/-- The name of the spare file beside a target. -/
def spareFileName (machine : Machine) (target : Path) : String :=
  "." ++ target.name ++ "." ++ machine.spareName ++ ".tmp"

/-- **What it takes to replace a file**: its directory is there, its path ends in a name and leads
to no directory, and the name of the spare file is free. -/
structure Replaceable (machine : Machine) (target : Path) : Prop where
  parent : machine.isDirectory target.parent
  name : endsInName target
  noDirectory : machine.held target ≠ some .directory
  noNull : ∀ segment ∈ machine.directory ++ target.segments, '\x00' ∉ segment.toList
  spareName : '/' ∉ (spareFileName machine target).toList
    ∧ '\x00' ∉ (spareFileName machine target).toList
  spare : machine.tree.get?
    (target.parent.place machine.directory ++ [spareFileName machine target]) = none

theorem five_lt_length_spareFileName (machine : Machine) (target : Path) :
    5 < (spareFileName machine target).toList.length := by
  simp only [spareFileName, String.toList_append, List.length_append]
  have hstart : ".".toList.length = 1 := rfl
  have hend : ".tmp".toList.length = 4 := rfl
  omega

theorem spareFileName_ne {s : String} (h : s.toList.length ≤ 5) :
    spareFileName machine target ≠ s := by
  rintro rfl
  exact absurd h (Nat.not_le.mpr (five_lt_length_spareFileName machine target))

/-- The spare file is made in the directory of the target. -/
theorem child_absolute {directory : Place} (hdirectory : ".." ∉ directory)
    (hslash : '/' ∉ (spareFileName machine target).toList) :
    (p.absolute ⟨.root, directory⟩).child (spareFileName machine target)
      = ⟨.root, p.place directory ++ [spareFileName machine target]⟩ := by
  have hwhole : Text.splitWhere (· == '/') (spareFileName machine target).toList
      = [] ++ [(spareFileName machine target).toList] := by
    refine Text.splitWhere_of_not fun c hc => beq_eq_false_iff_ne.mpr ?_
    rintro rfl
    exact hslash hc
  have hanchor : Anchor.ofChars (spareFileName machine target).toList = .here :=
    Path.ofChars_append (s := []) hslash
  rw [Path.child, Path.ofText_of_splitWhere hwhole (spareFileName_ne (by decide))
    (spareFileName_ne (by decide)), hanchor, ← Path.segments_absolute hdirectory]
  rfl

/-- The path of the spare file has no null character. -/
theorem Replaceable.not_hasNull_spare (h : Replaceable machine target) :
    ¬ (⟨.root, target.parent.place machine.directory
      ++ [spareFileName machine target]⟩ : Path).hasNull := by
  refine Path.not_hasNull_iff.mpr fun s hs => ?_
  rcases List.mem_append.mp hs with hs | hs
  · refine h.noNull s ?_
    rcases Path.mem_foldl_push hs with hs | hs
    · refine List.mem_append_left _ ?_
      split at hs
      · cases hs
      · exact hs
    · exact List.mem_append_right _ (List.dropLast_subset _ hs)
  · rw [List.mem_singleton.mp hs]
    exact h.spareName.2

/-- Where a path leads to a directory, so does its place when it is written from the root. -/
theorem locate_place {w : Workspace} (hsound : w.Sound) (h : w.isDirectory p) :
    w.locate ⟨.root, p.place w.directory⟩ = .ok (p.place w.directory)
      ∧ w.tree.get? (p.place w.directory) = some .directory := by
  obtain ⟨place, hplace, hdirectory⟩ := isDirectory_iff.mp h
  have hplain : ".." ∉ p.place w.directory := by
    rw [← Path.segments_absolute hsound.plain]
    exact Path.not_mem_segments_resolved (Path.isAbsolute_within rfl p)
  rw [← place_of_locate hsound hplace] at hplain ⊢
  have hheld : w.tree.get? ([] ++ place) ≠ none := by
    rw [List.nil_append, hdirectory]
    exact nofun
  exact ⟨hsound.tree.follow_of_held hplain hheld, hdirectory⟩

/-- **A spare file that can be made is filled and moved** to a path that ends in a name and leads to
no directory.  The hypotheses are what the operations refuse: a NUL in the path, a place that is
taken, a path that ends in no name. -/
theorem exists_run_stageAndMove {staged : Path} {start goal : Place} (octets : Octets)
    (hnull : ¬ staged.hasNull) (hstart : machine.locate staged = .ok start)
    (hfree : machine.tree.get? start = none) (hstaged : endsInName staged)
    (hgoal : machine.locate target = .ok goal) (hplain : machine.tree.get? goal ≠ some .directory)
    (htarget : endsInName target) :
    ∃ after, (stageAndMove staged target (.ok octets)).run machine = (.ok (), after) := by
  obtain ⟨created, hcreate⟩ : ∃ created, machine.toWorkspace.create staged = .ok created :=
    ⟨_, addNew_eq_ok_iff.mpr ⟨start, hstart, hfree, rfl⟩⟩
  obtain ⟨start, hstart, hcreated⟩ := Staged.ofCreate hcreate
  obtain ⟨filled, hwrite, hfilled⟩ := hcreated.exists_write hstart octets
  obtain ⟨moved, hmove⟩ := hfilled.exists_rename hstart hgoal hplain hstaged htarget
  have hopened : StateT.run (Host.create staged : StateM Machine (Except FileFault Unit)) machine
      = (.ok (), { machine with toWorkspace := created }) :=
    run_attempt_of_ok hcreate
  have hput : StateT.run (Host.write staged octets : StateM Machine (Except FileFault Unit))
      { machine with toWorkspace := created }
        = (.ok (), { machine with toWorkspace := filled }) :=
    run_attempt_of_ok hwrite
  have hmoved : StateT.run (moveInto staged target : StateM Machine (Except WriteError Unit))
      { machine with toWorkspace := filled }
        = (.ok (), { machine with toWorkspace := moved }) := by
    have hrename : StateT.run (Host.rename staged target : StateM Machine (Except FileFault Unit))
        { machine with toWorkspace := filled }
          = (.ok (), { machine with toWorkspace := moved }) :=
      run_attempt_of_ok hmove
    rw [moveInto, StateT.run_bind, hrename]
    rfl
  have hfill : StateT.run (fillAndMove staged target (.ok octets) :
      StateM Machine (Except WriteError Unit)) { machine with toWorkspace := created }
        = (.ok (), { machine with toWorkspace := moved }) := by
    rw [fillAndMove, StateT.run_bind, run_onPath hnull hput]
    exact hmoved
  refine ⟨{ machine with toWorkspace := moved }, ?_⟩
  rw [stageAndMove, StateT.run_bind, run_onPath hnull hopened]
  show StateT.run (fillAndMove staged target (.ok octets) >>= _)
    { machine with toWorkspace := created } = _
  rw [StateT.run_bind, hfill]
  rfl

/-- Where the directory of the target is there, the spare file is made in it. -/
theorem run_replacePrepared (contents : Except WriteError Octets)
    (hsteps : StateT.run (checkSteps target.parent.anchor [] target.parent.segments :
      StateM Machine (Except FileError Unit)) machine = (.ok (), machine)) :
    (replacePrepared target contents (.ok ())).run machine
      = (stageAndMove ((target.parent.absolute ⟨.root, machine.directory⟩).child
          (spareFileName machine target)) target contents).run machine := by
  have hdirectory : StateT.run (Host.workingDirectory : StateM Machine Path) machine
      = (⟨.root, machine.directory⟩, machine) := rfl
  have hname : StateT.run (Host.spareName : StateM Machine String) machine
      = (machine.spareName, machine) := rfl
  rw [replacePrepared, StateT.run_bind, hsteps]
  show StateT.run (Host.workingDirectory >>= fun directory => Host.spareName >>= fun name =>
    stageAndMove ((target.parent.absolute directory).child
      ("." ++ target.name ++ "." ++ name ++ ".tmp")) target contents) machine = _
  rw [StateT.run_bind, hdirectory]
  show StateT.run (Host.spareName >>= fun name =>
    stageAndMove ((target.parent.absolute ⟨.root, machine.directory⟩).child
      ("." ++ target.name ++ "." ++ name ++ ".tmp")) target contents) machine = _
  rw [StateT.run_bind, hname]
  rfl

/-- **What can be replaced is replaced**, whether or not directories may be made.  `Replaceable`
collects the hypotheses of `exists_run_stageAndMove` for the spare path that the machine gives. -/
theorem exists_run_replaceContents (hsound : machine.toWorkspace.Sound)
    (h : Replaceable machine target) (octets : Octets) (createParents : Bool) :
    ∃ after, (replaceContents target (.ok octets) createParents : StateM Machine _).run machine
      = (.ok (), after) := by
  have hsegments : ∀ s ∈ target.parent.segments, '\x00' ∉ s.toList := fun s hs =>
    h.noNull s (List.mem_append_right _ (List.dropLast_subset _ hs))
  have hprepare : StateT.run (if createParents then makeDirectories target.parent
      else pure (.ok ()) : StateM Machine (Except FileError Unit)) machine = (.ok (), machine) := by
    cases createParents with
    | false => rfl
    | true =>
      exact run_makeDirectories_of_isDirectory (Path.not_hasNull_iff.mpr hsegments) h.parent
  have hsteps : StateT.run (checkSteps target.parent.anchor [] target.parent.segments :
      StateM Machine (Except FileError Unit)) machine = (.ok (), machine) := by
    obtain ⟨place, hplace, hdirectory⟩ := isDirectory_iff.mp h.parent
    refine run_checkSteps rfl hplace ?_ hsegments
    rw [hdirectory]
    exact nofun
  have hbegun : (replaceContents target (.ok octets) createParents : StateM Machine _).run machine
      = (replacePrepared target (.ok octets) (.ok ())).run machine := by
    rw [replaceContents_eq, StateT.run_bind, hprepare]
    rfl
  rw [hbegun, run_replacePrepared _ hsteps, child_absolute hsound.plain h.spareName.1]
  obtain ⟨hplace, hdirectory⟩ := locate_place hsound h.parent
  have hback : spareFileName machine target ≠ ".." := spareFileName_ne (by decide)
  have hstart := locate_snoc_eq_ok.mpr ⟨_, hplace, hdirectory, (if_neg hback).symm⟩
  obtain ⟨goal, hgoal⟩ := locate_of_endsInName h.parent h.name
  have hplain : machine.tree.get? goal ≠ some .directory := by
    intro hgoalDirectory
    exact h.noDirectory (held_eq_some_iff.mpr ⟨goal, find_eq_ok_iff.mpr ⟨hgoal, hgoalDirectory⟩⟩)
  have hstaged : endsInName
      ⟨.root, target.parent.place machine.directory ++ [spareFileName machine target]⟩ := by
    rw [endsInName, List.getLast?_concat]
    exact decide_eq_true hback
  exact exists_run_stageAndMove octets h.not_hasNull_spare hstart h.spare hstaged hgoal hplain
    h.name

/-! ## All or nothing -/

/-- **A place holds what it held**, or there is a new directory, where one may be made. -/
def Kept (made : Place → Prop) (before after : Workspace) (place : Place) : Prop :=
  after.tree.get? place = before.tree.get? place
    ∨ made place ∧ before.tree.get? place = none ∧ after.tree.get? place = some .directory

/-- **A replacement is all or nothing**: where it succeeds the target is a regular file with the new
contents and every other place is kept, and where it fails every place is. -/
structure AllOrNothing (made : Place → Prop) (before : Workspace) (target : Path)
    (contents : Except WriteError Octets) (result : Except WriteError Unit) (after : Workspace) :
    Prop where
  written : result = .ok () →
    ∃ octets, contents = .ok octets ∧ after.held target = some (.file octets)
  others : result = .ok () → ∀ place, place ≠ target.place before.directory →
    Kept made before after place
  nothing : result ≠ .ok () → ∀ place, Kept made before after place

variable {made : Place → Prop} {contents : Except WriteError Octets}

theorem allOrNothing_of_replaced {w : Workspace} {result : Except WriteError Unit} {after : Machine}
    (h : Replaced made w target contents result after.toWorkspace) :
    AllOrNothing made w target contents result after.toWorkspace := by
  cases result with
  | ok _ =>
    obtain ⟨-, ⟨octets, hcontents, hread⟩, hbecomes⟩ := h
    refine ⟨fun _ => ⟨octets, hcontents, read_eq_ok_iff.mp hread⟩, fun _ place hplace => ?_,
      fun hfailed => absurd rfl hfailed⟩
    exact hbecomes.rest place hplace
  | error e =>
    refine ⟨fun hdone => ?_, fun hdone => ?_, fun _ place => ?_⟩
    · cases hdone
    · cases hdone
    · exact (h fun _ => False).rest place not_false

section Codecs

variable [Codecs]

/-- What is put out for a text is what its encoder does not hold back. -/
theorem octetsIn_of_codec {encoding text : String} {codec : TextCodec} {octets : Octets}
    (h : TextCodec.ofName encoding = .ok codec) :
    octetsIn encoding text = .ok octets
      ↔ ∃ encoded, codec.encode text.toList = .ok encoded ∧ encoded.octets = octets := by
  rw [octetsIn, encodedIn, h]
  dsimp only
  cases codec.encode text.toList with
  | error e => simp [Except.map, Except.mapError]
  | ok found => simp [Except.map, Except.mapError]

/-- **What an encoder puts out is the text**, for an encoding that files are read in.  `h` excludes
the codecs of the surroundings, of which nothing is known, and the one for the names of hosts, of
which this is false. -/
theorem octetsIn_eq_ok_iff {encoding text : String} {known : Encoding} {octets : Octets}
    (h : Encoding.ofName? encoding = some known) :
    octetsIn encoding text = .ok octets ↔ known.encode text.toList = .ok octets := by
  rw [octetsIn_of_codec (TextCodec.ofName_of_encoding h), TextCodec.ofEncoding]
  dsimp only
  cases known.encode text.toList with
  | error e => simp [Except.map, Except.mapError]
  | ok found => simp [Except.map, Except.mapError, Encoded.ofWhole]

/-- The codec for the names of hosts is found where it is named. -/
theorem ofName_hostNames {encoding : String} (hnull : hasNull encoding = false)
    (h : Codec.ofName? encoding = some .hostNames) :
    TextCodec.ofName encoding = .ok TextCodec.hostNames := by
  rw [TextCodec.ofName, hnull, if_neg Bool.false_ne_true, h]

end Codecs

/-- What replacing a file ends in, on a machine. -/
def replacement (machine : Machine) (target : Path) (contents : Except WriteError Octets)
    (createParents : Bool) : Except WriteError Unit × Machine :=
  (replaceContents target contents createParents : StateM Machine _).run machine

/-- **Replacing a file by a text is all or nothing**, whatever is put out for the text, and it
succeeds where it can.  What is put out is what the encoder does not hold back.  In an encoding that
is worked out here that is the text.  In the encoding for the names of hosts it is the text where it
ends in a point, or is none, and nowhere else; of an ASCII text it is the part up to the last
point. -/
theorem allOrNothing_replaceText [Codecs] (hsound : machine.toWorkspace.Sound) (target : Path)
    (createParents : Bool) :
    (∀ contents,
      AllOrNothing (fun place => createParents ∧ target.parent.Leads machine.directory place)
          machine.toWorkspace target contents
          (replacement machine target contents createParents).1
          (replacement machine target contents createParents).2.toWorkspace
        ∧ (Replaceable machine target →
          ((replacement machine target contents createParents).1 = .ok ()
            ↔ ∃ octets, contents = .ok octets)))
      ∧ ∀ text encoding,
        (replaceText target text encoding createParents : StateM Machine _).run machine
            = replacement machine target (octetsIn encoding text) createParents
          ∧ (∀ codec, TextCodec.ofName encoding = .ok codec → ∀ octets,
            octetsIn encoding text = .ok octets
              ↔ ∃ encoded, codec.encode text.toList = .ok encoded ∧ encoded.octets = octets)
          ∧ (∀ known, Encoding.ofName? encoding = some known → ∀ octets,
            octetsIn encoding text = .ok octets ↔ known.encode text.toList = .ok octets)
          ∧ (hasNull encoding = false → Codec.ofName? encoding = some .hostNames → ∀ encoded,
            HostName.encode text.toList = .ok encoded →
              octetsIn encoding text = .ok encoded.octets
                ∧ (HostName.LabelsTaken ∨ (∀ c ∈ text.toList, c.toNat < 0x80) →
                  (encoded.whole = some encoded.octets
                    ↔ text.toList = [] ∨ ∃ c ∈ text.toList.getLast?, HostName.isPoint c))
                ∧ ((∀ c ∈ text.toList, c.toNat < 0x80) → ∃ front last, text.toList = front ++ last
                  ∧ (front = [] ∨ front.getLast? = some '.') ∧ '.' ∉ last
                  ∧ encoded.octets = front.map fun c => UInt8.ofNat c.toNat)) := by
  constructor
  · intro contents
    have hreplaced := run_of_triple (replaced_replaceContents hsound target contents createParents)
      (rfl : _ = machine.toWorkspace)
    refine ⟨allOrNothing_of_replaced hreplaced, fun hready => ⟨fun hdone => ?_, ?_⟩⟩
    · exact ((allOrNothing_of_replaced hreplaced).written hdone).imp fun _ h => h.1
    · rintro ⟨octets, rfl⟩
      obtain ⟨done, hdone⟩ := exists_run_replaceContents hsound hready octets createParents
      exact congrArg Prod.fst hdone
  · intro text encoding
    refine ⟨rfl, fun codec hcodec octets => octetsIn_of_codec hcodec,
      fun known hknown octets => octetsIn_eq_ok_iff hknown,
      fun hnull hname encoded hencoded => ⟨?_, fun hlabels => ?_, fun hascii => ?_⟩⟩
    · exact (octetsIn_of_codec (ofName_hostNames hnull hname)).mpr ⟨encoded, hencoded, rfl⟩
    · rw [Encoded.whole_eq_octets_iff]
      exact HostName.heldBack_eq_nil_iff hlabels hencoded
    · exact HostName.octets_of_ascii hascii hencoded

/-- A machine with one file. -/
def machineWithFile : Machine :=
  { tree := ⟨[(["a.txt"], .file [0x6F, 0x6C, 0x64])]⟩, spareName := "spare" }

/-- What is put out for a text under a name that asks for no codec of the surroundings. -/
abbrev octetsHere : String → String → Except WriteError Octets :=
  @octetsIn Codecs.arabic

/-- A text that ends in a point is written as a whole, and one with a character that the encoding
lacks leaves the file as it was. -/
theorem allOrNothing_replaceText_pointed :
    machineWithFile.toWorkspace.Sound ∧ Replaceable machineWithFile ⟨.here, ["a.txt"]⟩
      ∧ (replacement machineWithFile ⟨.here, ["a.txt"]⟩ (octetsHere "idna" "a.b.") false).1 = .ok ()
      ∧ (replacement machineWithFile ⟨.here, ["a.txt"]⟩ (octetsHere "idna" "a.b.") false).2.held
          ⟨.here, ["a.txt"]⟩ = some (.file [0x61, 0x2E, 0x62, 0x2E])
      ∧ (replacement machineWithFile ⟨.here, ["a.txt"]⟩ (octetsHere "ascii" "é") false).1 ≠ .ok ()
      ∧ (replacement machineWithFile ⟨.here, ["a.txt"]⟩ (octetsHere "ascii" "é") false).2.tree.get?
          ["a.txt"] = some (.file [0x6F, 0x6C, 0x64]) := by
  have hsound : machineWithFile.toWorkspace.Sound := ⟨by decide, rfl, List.not_mem_nil⟩
  have hready : Replaceable machineWithFile ⟨.here, ["a.txt"]⟩ :=
    ⟨by decide, by decide, by decide +kernel, by decide +kernel, by decide +kernel,
      by decide +kernel⟩
  obtain ⟨hcontents, htext⟩ :=
    @allOrNothing_replaceText _ Codecs.arabic hsound ⟨.here, ["a.txt"]⟩ false
  obtain ⟨-, -, -, hhost⟩ := htext "a.b." "idna"
  obtain ⟨hoctets, -⟩ := hhost rfl rfl ⟨[0x61, 0x2E, 0x62, 0x2E], some []⟩ (by decide +kernel)
  obtain ⟨hwhole, hsucceeds⟩ := hcontents (octetsHere "idna" "a.b.")
  have hdone := (hsucceeds hready).mpr ⟨_, hoctets⟩
  obtain ⟨octets, hwritten, hheld⟩ := hwhole.written hdone
  obtain rfl := Except.ok.inj (hoctets.symm.trans hwritten)
  obtain ⟨hkept, hfails⟩ := hcontents (octetsHere "ascii" "é")
  have hlacks : octetsHere "ascii" "é"
      = .error (.text (.unencodable ⟨"ascii", ['é'], 0, "ordinal not in range(128)"⟩)) := by
    decide +kernel
  have hfailed : (replacement machineWithFile ⟨.here, ["a.txt"]⟩ (octetsHere "ascii" "é") false).1
      ≠ .ok () := by
    intro hdone
    obtain ⟨octets, hoctets⟩ := (hfails hready).mp hdone
    cases hlacks.symm.trans hoctets
  refine ⟨hsound, hready, hdone, hheld, hfailed, ?_⟩
  rcases hkept.nothing hfailed ["a.txt"] with hsame | ⟨⟨hmade, -⟩, -⟩
  · exact hsame
  · cases hmade

/-- **A text that does not end in a point is not written as a whole** in the encoding for the names
of hosts, although it has octets there: the file is empty. -/
theorem replaceText_hostNames_open :
    machineWithFile.toWorkspace.Sound
      ∧ ((@replaceText (StateM Machine) _ _ Codecs.arabic ⟨.here, ["a.txt"]⟩ "abc" "idna" false).run
          machineWithFile).1 = .ok ()
      ∧ ((@replaceText (StateM Machine) _ _ Codecs.arabic ⟨.here, ["a.txt"]⟩ "abc" "idna" false).run
          machineWithFile).2.held ⟨.here, ["a.txt"]⟩ = some (.file [])
      ∧ (@HostName.encode Codecs.arabic "abc".toList).toOption.bind Encoded.whole
          = some [0x61, 0x62, 0x63] :=
  ⟨⟨by decide, rfl, List.not_mem_nil⟩, by decide +kernel, by decide +kernel, by decide +kernel⟩

end Files

end RuleCatalogue
