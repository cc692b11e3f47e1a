import RuleCatalogue.Files
import RuleCatalogue.Proofs.Encoding.Utf8
import RuleCatalogue.Proofs.FileTree
import RuleCatalogue.Proofs.Machine

/-!
# What working with files changes

Making directories makes directories and nothing else, and only those that lead to the path.  A file
is replaced as a whole: where that succeeds the path leads to the new contents, and where it fails
every place holds what it held before, up to new directories; the spare file is gone either way.

## Main definitions

* `Path.Leads` lists the places on the way along a path.
* `Workspace.Staged` is a workspace with one more file.
* `Files.Replaced` is what replacing a file ends in.

## Main results

* `Files.becomes_makeDirectories`: which directories are made.
* `Files.replaced_replaceContents`: the old contents or the new ones, and no third.

## Design notes

What a program may change is said by an invariant: what the workspace at the beginning may have
become (`Workspace.Becomes`).  It goes from one step to the next because what becomes of what has
become of a workspace is something that may become of it.
-/

namespace RuleCatalogue

open Std.Do

set_option mvcgen.warning false

/-- **A place on the way along a path**, seen from a working directory: that of the path, or of a
path that it goes on from. -/
def Path.Leads (p : Path) (directory place : Place) : Prop :=
  ∃ above, above <+: p.segments ∧ place = (⟨p.anchor, above⟩ : Path).place directory

/-! ## Operations on workspaces -/

namespace Workspace

open FileTree

variable {w v after : Workspace} {p staged target : Path} {place start : Place}
  {made touched : Place → Prop} {octets more : Octets}

theorem addNew_eq_ok_iff {entry : FileEntry} :
    w.addNew p entry = .ok after
      ↔ ∃ place, w.locate p = .ok place ∧ w.tree.get? place = none
        ∧ { w with tree := w.tree.put place entry } = after := by
  unfold addNew
  cases hplace : w.locate p with
  | error fault => simp
  | ok found =>
    dsimp only
    cases hget : w.tree.get? found with
    | none => simp [hget]
    | some held => simp [hget]

theorem becomes_makeDirectory (hsound : w.Sound) (h : w.makeDirectory p = .ok after) :
    Becomes (· = p.place w.directory) touched w after := by
  obtain ⟨place, hplace, hnone, rfl⟩ := addNew_eq_ok_iff.mp h
  rw [← place_of_locate hsound hplace]
  exact .putDirectory hnone fun _ => parent_of_locate hsound hplace

/-- What a regular file at a place holds; nothing if there is none. -/
def contentsAt (w : Workspace) (place : Place) : Octets :=
  match w.tree.get? place with
  | some (.file octets) => octets
  | _ => []

theorem append_eq_ok_iff :
    w.append p more = .ok after
      ↔ ∃ place, w.locate p = .ok place ∧ w.tree.get? place ≠ some .directory
        ∧ { w with tree := w.tree.put place (.file (w.contentsAt place ++ more)) } = after := by
  unfold append
  cases hplace : w.locate p with
  | error fault => simp
  | ok found =>
    dsimp only
    cases hget : w.tree.get? found with
    | none => simp [hget, contentsAt]
    | some held =>
      cases held with
      | file earlier => simp [hget, contentsAt]
      | directory => simp [hget]

theorem becomes_append (hsound : w.Sound) (h : w.append p more = .ok after) :
    Becomes made (· = p.place w.directory) w after := by
  obtain ⟨place, hplace, hfile, rfl⟩ := append_eq_ok_iff.mp h
  rw [← place_of_locate hsound hplace]
  exact .putFile hfile (fun _ => parent_of_locate hsound hplace) _

theorem exists_of_rename {source : Path} (h : w.rename source target = .ok after) :
    ∃ start goal contents, w.locate source = .ok start ∧ w.locate target = .ok goal
      ∧ endsInName target ∧ w.tree.get? start = some (.file contents)
      ∧ w.tree.get? goal ≠ some .directory
      ∧ { w with tree := (w.tree.erase start).put goal (.file contents) } = after := by
  unfold rename at h
  split at h
  · exact nomatch h
  · exact nomatch h
  · next start goal hstart hgoal =>
    split at h
    · exact nomatch h
    · next hnames =>
      split at h
      · exact nomatch h
      · exact nomatch h
      · exact nomatch h
      · next contents hcontents hgoalFile =>
        simp only [Bool.or_eq_true, Bool.not_eq_true', not_or, Bool.not_eq_false] at hnames
        exact ⟨start, goal, contents, hstart, hgoal, hnames.2, hcontents, hgoalFile,
          Except.ok.inj h⟩

/-! ## A spare file -/

/-- **A workspace with one more file**, at a place where there was nothing. -/
structure Staged (w : Workspace) (start : Place) (octets : Octets) (v : Workspace) : Prop where
  directory : v.directory = w.directory
  free : w.tree.get? start = none
  get? : ∀ place, v.tree.get? place
    = if place = start then some (.file octets) else w.tree.get? place

namespace Staged

theorem ne_root (h : Staged w start octets v) : start ≠ [] :=
  ne_root_of_get? (by rw [h.free]; exact nofun)

theorem kept (h : Staged w start octets v) (place : Place)
    (hplace : w.tree.get? place = some .directory) : v.tree.get? place = some .directory := by
  rw [h.get?, if_neg, hplace]
  rintro rfl
  exact nomatch h.free.symm.trans hplace

/-- The new file leads nowhere, so paths lead where they led before. -/
theorem locate (h : Staged w start octets v) (p : Path) (place : Place) :
    v.locate p = .ok place ↔ w.locate p = .ok place := by
  rw [Workspace.locate, Workspace.locate, h.directory]
  constructor
  · refine follow_mono fun other hother => ?_
    rw [h.get?] at hother
    split at hother
    · cases hother
    · exact hother
  · exact follow_mono h.kept

theorem ofCreate (h : w.create p = .ok v) :
    ∃ start, w.locate p = .ok start ∧ Staged w start [] v := by
  obtain ⟨start, hstart, hnone, rfl⟩ := addNew_eq_ok_iff.mp h
  refine ⟨start, hstart, rfl, hnone, fun place => ?_⟩
  exact get?_put (ne_root_of_get? (by rw [hnone]; exact nofun)) _ _

theorem find (h : Staged w start octets v) (hstart : w.locate p = .ok start) :
    v.find p = .ok (start, .file octets) :=
  find_eq_ok_iff.mpr ⟨(h.locate p start).mpr hstart, by rw [h.get?, if_pos rfl]⟩

/-- The new file can be written. -/
theorem exists_write (h : Staged w start octets v) (hstart : w.locate p = .ok start)
    (more : Octets) : ∃ after, v.write p more = .ok after ∧ Staged w start more after := by
  refine ⟨{ v with tree := v.tree.put start (.file more) }, ?_, h.directory, h.free,
    fun place => ?_⟩
  · rw [write, h.find hstart]
  · dsimp only
    rw [get?_put h.ne_root, h.get?]
    split
    · rfl
    · rfl

/-- **It can be removed**, and then everything is as before. -/
theorem exists_remove (h : Staged w start octets v) (hstart : w.locate p = .ok start) :
    ∃ after, v.remove p = .ok after ∧ after.directory = w.directory
      ∧ ∀ place, after.tree.get? place = w.tree.get? place := by
  refine ⟨{ v with tree := v.tree.erase start }, ?_, h.directory, fun place => ?_⟩
  · rw [remove, h.find hstart]
  · dsimp only
    rw [get?_erase h.ne_root, h.get?]
    split
    · next hplace => rw [hplace, h.free]
    · rfl

/-- **Where it is moved to a path**, the path ends in a name and leads to it afterwards, and
everything else is as before. -/
theorem of_rename (h : Staged w start octets v) (hsound : w.Sound)
    (hstart : w.locate staged = .ok start) (hmoved : v.rename staged target = .ok after) :
    endsInName target ∧ after.read target = .ok octets
      ∧ Becomes made (· = target.place w.directory) w after := by
  obtain ⟨source, goal, contents, hsource, hgoal, hname, hcontents, hgoalFile, rfl⟩ :=
    exists_of_rename hmoved
  have hlocated : w.locate target = .ok goal := (h.locate target goal).mp hgoal
  obtain rfl : source = start :=
    Except.ok.inj (hsource.symm.trans ((h.locate staged start).mpr hstart))
  obtain rfl : contents = octets := by
    rw [h.get?, if_pos rfl] at hcontents
    cases hcontents
    rfl
  -- The goal is no directory, with the new file or without it.
  have hplain : w.tree.get? goal ≠ some .directory := fun e => hgoalFile (h.kept goal e)
  have hne := ne_root_of_get? hplain
  have hget (place : Place) : ((v.tree.erase source).put goal (.file contents)).get? place
      = if place = goal then some (.file contents) else w.tree.get? place := by
    rw [get?_put hne, get?_erase h.ne_root, h.get?]
    split
    · rfl
    · split
      · next hplace => rw [hplace, h.free]
      · rfl
  have hbecomes : Becomes made (· = target.place w.directory) w
      { v with tree := (v.tree.erase source).put goal (.file contents) } := by
    rw [← place_of_locate hsound hlocated]
    refine (Becomes.putFile hplain (fun _ => parent_of_locate hsound hlocated)
      contents).of_get?_eq h.directory fun place => ?_
    rw [hget, get?_put hne]
  refine ⟨hname, ?_, hbecomes⟩
  rw [read_eq_ok_iff, held_eq_some_iff]
  exact ⟨goal, find_eq_ok_iff.mpr ⟨hbecomes.locate_eq_ok hlocated, by rw [hget, if_pos rfl]⟩⟩

end Staged

end Workspace

/-! ## Programs -/

namespace Machine

open Workspace

variable {w : Workspace} {made touched : Place → Prop}

/-- **An operation changes what it changes** where it is not refused. -/
theorem becomes_attempt {f : Workspace → Except FileFault Workspace} (hsound : w.Sound)
    (h : ∀ v after : Workspace, v.directory = w.directory → v.Sound → f v = .ok after →
      Becomes made touched v after) :
    ⦃fun s => ⌜Becomes made touched w s.toWorkspace⌝⦄ attempt f
    ⦃⇓ _ s => ⌜Becomes made touched w s.toWorkspace⌝⦄ := by
  refine invariant_attempt fun machine v hmachine hv => ?_
  exact hmachine.trans (h _ v hmachine.directory (hmachine.sound_workspace hsound) hv)

end Machine

namespace Files

open Machine Workspace

variable {α : Type} {I : Machine → Prop} {made touched : Place → Prop} {p staged target : Path}
  {machine : Machine} {w : Workspace} {start : Place} {octets : Octets}

/-! ## Invariants of the steps -/

/-- An operation on a path leaves true what the operation leaves true. -/
theorem invariant_onPath {α : Type} {operation : Option String}
    {action : Path → StateM Machine (Except FileFault α)}
    (h : ⦃fun s => ⌜I s⌝⦄ action p ⦃⇓ _ s => ⌜I s⌝⦄) :
    ⦃fun s => ⌜I s⌝⦄ onPath operation p action ⦃⇓ _ s => ⌜I s⌝⦄ := by
  mvcgen [onPath, h]

theorem invariant_isDirectory (p : Path) :
    ⦃fun s => ⌜I s⌝⦄ (isDirectory p : StateM Machine Bool) ⦃⇓ _ s => ⌜I s⌝⦄ := by
  mvcgen [isDirectory]

theorem invariant_read (p : Path) :
    ⦃fun s => ⌜I s⌝⦄ (read p : StateM Machine (Except FileError Octets)) ⦃⇓ _ s => ⌜I s⌝⦄ := by
  mvcgen [read, onPath]

theorem invariant_checkSteps (anchor : Anchor) (before steps : List String) :
    ⦃fun s => ⌜I s⌝⦄ (checkSteps anchor before steps : StateM Machine (Except FileError Unit))
    ⦃⇓ _ s => ⌜I s⌝⦄ := by
  induction steps generalizing before with
  | nil => mvcgen [checkSteps]
  | cons segment rest ih => mvcgen [checkSteps, onPath, ih]

/-- **Making directories** makes one directory at a time, each on the way along the path. -/
theorem invariant_makeDirectories (p : Path)
    (hmake : ∀ above, above <+: p.segments →
      ⦃fun s => ⌜I s⌝⦄ (Host.makeDirectory ⟨p.anchor, above⟩ : StateM Machine _)
      ⦃⇓ _ s => ⌜I s⌝⦄) :
    ⦃fun s => ⌜I s⌝⦄ (makeDirectories p : StateM Machine (Except FileError Unit))
    ⦃⇓ _ s => ⌜I s⌝⦄ := by
  have hself : ⦃fun s => ⌜I s⌝⦄
      (onPath (some "mkdir") p Host.makeDirectory : StateM Machine (Except FileError Unit))
      ⦃⇓ _ s => ⌜I s⌝⦄ :=
    invariant_onPath (hmake p.segments List.prefix_rfl)
  have hlook := @invariant_isDirectory I p
  rw [makeDirectories]
  by_cases hne : p.segments = []
  · simp only [dif_pos hne]
    mvcgen [hself, hlook]
  · -- The directory above is made first where it is missing, and then this one is tried again.
    have hshorter : p.parent.segments.length < p.segments.length := by
      have : p.segments.length ≠ 0 := fun e => hne (List.length_eq_zero_iff.mp e)
      simp only [Path.parent, List.length_dropLast]
      omega
    have habove := invariant_makeDirectories p.parent
      fun above habove => hmake above (habove.trans (List.dropLast_prefix _))
    simp only [dif_neg hne]
    mvcgen [hself, hlook, habove]
termination_by p.segments.length

/-- Adding to a file touches its place alone. -/
theorem becomes_append (hsound : w.Sound) (p : Path) (h : touched (p.place w.directory))
    (more : Octets) :
    ⦃fun s => ⌜Becomes made touched w s.toWorkspace⌝⦄
    (append p more : StateM Machine (Except FileError Unit))
    ⦃⇓ _ s => ⌜Becomes made touched w s.toWorkspace⌝⦄ := by
  refine invariant_onPath (p := p) (becomes_attempt hsound fun v after hdirectory hv hafter => ?_)
  refine (Workspace.becomes_append hv hafter).mono (fun _ hm => hm) ?_
  rintro place rfl
  exact hdirectory ▸ h

/-- **Making directories** makes only such that the path leads along, and touches no file. -/
theorem becomes_makeDirectories (hsound : w.Sound) (p : Path) :
    ⦃fun s => ⌜Becomes (p.Leads w.directory) touched w s.toWorkspace⌝⦄
    (makeDirectories p : StateM Machine (Except FileError Unit))
    ⦃⇓ _ s => ⌜Becomes (p.Leads w.directory) touched w s.toWorkspace⌝⦄ := by
  refine invariant_makeDirectories p fun above habove => ?_
  refine becomes_attempt hsound fun v after hdirectory hv h => ?_
  refine (becomes_makeDirectory hv h).mono ?_ fun _ ht => ht
  rintro place rfl
  rw [hdirectory]
  exact ⟨above, habove, rfl⟩

/-! ## Reading -/

/-- **What reading a file gives** in a workspace. -/
def readIn (w : Workspace) (p : Path) : Except FileError Octets :=
  if p.hasNull then .error (.nullInPath none)
  else (w.read p).mapError fun fault => .refused fault p none

theorem run_read (p : Path) (machine : Machine) :
    (read p : StateM Machine _).run machine = (readIn machine.toWorkspace p, machine) := by
  unfold read onPath readIn
  split
  · rfl
  · have hlook : StateT.run (Host.read p : StateM Machine _) machine
        = (machine.toWorkspace.read p, machine) := rfl
    rw [StateT.run_bind, hlook]
    cases machine.toWorkspace.read p with
    | ok octets => rfl
    | error fault => rfl

/-! ## Replacing a file -/

/-- **Every text has octets in UTF-8.** -/
theorem octetsIn_utf8 [Codecs] (text : String) :
    octetsIn "utf-8" text = .ok text.toUTF8.data.toList := by
  have hencode (position : Nat) (l : List Char) :
      Encoding.utf8.encodeFrom position l = .ok (Encoding.utf8Octets l) := by
    induction l generalizing position with
    | nil => rfl
    | cons c rest ih => simp [Encoding.encodeFrom, Encoding.octets?, ih]
  have hname : TextCodec.ofName "utf-8" = .ok (TextCodec.ofEncoding .utf8) := rfl
  rw [octetsIn, encodedIn, hname, Encoding.toList_toUTF8]
  simp [TextCodec.ofEncoding, Encoding.encode, hencode, Encoding.opening, Encoded.ofWhole,
    Except.map, Except.mapError]

/-- **What replacing a file ends in**: the target, which ends in a name, holds the new contents and
nothing else is changed, or everything is as it was; up to directories that are made. -/
def Replaced {ε : Type} (made : Place → Prop) (w : Workspace) (target : Path)
    (contents : Except WriteError Octets) : Except ε Unit → Workspace → Prop
  | .ok (), after =>
      endsInName target
        ∧ (∃ octets, contents = .ok octets ∧ after.read target = .ok octets)
        ∧ Becomes made (· = target.place w.directory) w after
  | .error _, after => ∀ touched, Becomes made touched w after

/-- **What filling a spare file and moving it ends in**: the target is replaced, or the spare file
is still there. -/
def Moved {ε : Type} (made : Place → Prop) (w : Workspace) (start : Place) (target : Path)
    (contents : Except WriteError Octets) : Except ε Unit → Workspace → Prop
  | .ok (), after => Replaced made w target contents (.ok () : Except ε Unit) after
  | .error _, after => ∃ octets, Staged w start octets after

/-- A spare file that has been filled is moved to the target, or stays where it is. -/
theorem moved_moveInto (hsound : w.Sound) (hstart : w.locate staged = .ok start) (target : Path)
    (octets : Octets) :
    ⦃fun s => ⌜Staged w start octets s.toWorkspace⌝⦄
    (moveInto staged target : StateM Machine (Except WriteError Unit))
    ⦃⇓ result s => ⌜Moved made w start target (.ok octets) result s.toWorkspace⌝⦄ := by
  have hmove :
      ⦃fun s => ⌜Staged w start octets s.toWorkspace⌝⦄
      (Host.rename staged target : StateM Machine (Except FileFault Unit))
      ⦃⇓ result s => ⌜Moved made w start target (.ok octets) result s.toWorkspace⌝⦄ := by
    refine triple_attempt (fun machine fault hstaged _ => ⟨octets, hstaged⟩) ?_
    intro machine after hstaged hmoved
    obtain ⟨hname, hread, hbecomes⟩ := hstaged.of_rename hsound hstart hmoved
    exact ⟨hname, ⟨octets, rfl, hread⟩, hbecomes⟩
  refine Triple.bind _ _ hmove fun result => ?_
  cases result with
  | ok _ => exact Triple.pure _ SPred.entails.rfl
  | error fault => exact Triple.pure _ SPred.entails.rfl

variable (made) in
/-- **A spare file is filled and moved to the target**, or it is still there. -/
theorem moved_fillAndMove (hsound : w.Sound) (hstart : w.locate staged = .ok start) (target : Path)
    (contents : Except WriteError Octets) :
    ⦃fun s => ⌜∃ octets, Staged w start octets s.toWorkspace⌝⦄
    (fillAndMove staged target contents : StateM Machine (Except WriteError Unit))
    ⦃⇓ result s => ⌜Moved made w start target contents result s.toWorkspace⌝⦄ := by
  unfold fillAndMove
  cases contents with
  | error e => exact Triple.pure _ SPred.entails.rfl
  | ok octets =>
    -- While it is filled the new file stays where it is, whether or not that comes to its end.
    have hfill :
        ⦃fun s => ⌜∃ octets, Staged w start octets s.toWorkspace⌝⦄
        (onPath none staged (Host.write · octets) : StateM Machine (Except FileError Unit))
        ⦃⇓ result s => ⌜match result with
          | .ok _ => Staged w start octets s.toWorkspace
          | .error _ => ∃ octets, Staged w start octets s.toWorkspace⌝⦄ := by
      have hwrite :
          ⦃fun s => ⌜∃ octets, Staged w start octets s.toWorkspace⌝⦄
          (Host.write staged octets : StateM Machine (Except FileFault Unit))
          ⦃⇓ result s => ⌜match result with
            | .ok _ => Staged w start octets s.toWorkspace
            | .error _ => ∃ octets, Staged w start octets s.toWorkspace⌝⦄ := by
        refine triple_attempt (fun machine fault hstaged _ => hstaged) ?_
        rintro machine next ⟨earlier, hstaged⟩ hnext
        obtain ⟨after, hwrite, hfilled⟩ := hstaged.exists_write hstart octets
        exact Except.ok.inj (hnext.symm.trans hwrite) ▸ hfilled
      mvcgen [onPath, hwrite]
    refine Triple.bind _ _ hfill fun result => ?_
    cases result with
    | ok _ => exact moved_moveInto hsound hstart target octets
    | error e => exact Triple.pure _ SPred.entails.rfl

/-- **What replacing a file does once its directory is there**, with a spare file at a path. -/
def stageAndMove (staged target : Path) (contents : Except WriteError Octets) :
    StateM Machine (Except WriteError Unit) := do
  match ← onPath (some "open") staged Host.create with
  | .error e => return .error (.file e)
  | .ok () =>
      match ← fillAndMove staged target contents with
      | .ok () => return .ok ()
      | .error e =>
          let _ ← (Host.remove staged : StateM Machine (Except FileFault Unit))
          return .error e

/-- The spare file is there once it has been made, and can be made only if it is not there. -/
theorem staged_create (w : Workspace) (staged : Path) :
    ⦃fun s => ⌜s.toWorkspace = w⌝⦄
    (onPath (some "open") staged Host.create : StateM Machine (Except FileError Unit))
    ⦃⇓ result s => ⌜match result with
      | .ok _ => ∃ start, w.locate staged = .ok start ∧ Staged w start [] s.toWorkspace
      | .error _ => s.toWorkspace = w⌝⦄ := by
  have hcreate :
      ⦃fun s => ⌜s.toWorkspace = w⌝⦄
      (Host.create staged : StateM Machine (Except FileFault Unit))
      ⦃⇓ result s => ⌜match result with
        | .ok _ => ∃ start, w.locate staged = .ok start ∧ Staged w start [] s.toWorkspace
        | .error _ => s.toWorkspace = w⌝⦄ := by
    refine triple_attempt (fun machine fault hsame _ => hsame) ?_
    rintro machine next rfl hnext
    exact Staged.ofCreate hnext
  mvcgen [onPath, hcreate]

/-- Where the spare file is still there, it can be removed, whatever went wrong. -/
theorem becomes_remove (hstart : w.locate staged = .ok start) :
    ⦃fun s => ⌜∃ octets, Staged w start octets s.toWorkspace⌝⦄
    (Host.remove staged : StateM Machine (Except FileFault Unit))
    ⦃⇓ _ s => ⌜∀ touched, Becomes made touched w s.toWorkspace⌝⦄ := by
  refine triple_attempt ?_ ?_
  · rintro machine fault ⟨octets, hstaged⟩ hfault
    obtain ⟨removed, hremove, -⟩ := hstaged.exists_remove hstart
    exact nomatch hfault.symm.trans hremove
  · rintro machine after ⟨octets, hstaged⟩ hafter
    obtain ⟨removed, hremove, hdirectory, hget⟩ := hstaged.exists_remove hstart
    obtain rfl := Except.ok.inj (hafter.symm.trans hremove)
    exact fun touched => (Becomes.refl made touched w).of_get?_eq hdirectory hget

variable (made) in
/-- **The spare file is moved to the target or removed.** -/
theorem replaced_stageAndMove (hsound : w.Sound) (staged target : Path)
    (contents : Except WriteError Octets) :
    ⦃fun s => ⌜s.toWorkspace = w⌝⦄
    stageAndMove staged target contents
    ⦃⇓ result s => ⌜Replaced made w target contents result s.toWorkspace⌝⦄ := by
  refine Triple.bind _ _ (staged_create w staged) fun result => ?_
  cases result with
  | error e =>
    refine Triple.pure _ fun machine hsame touched => ?_
    rw [show machine.toWorkspace = w from hsame]
    exact .refl made touched w
  | ok _ =>
    rintro created ⟨start, hstart, hstaged⟩
    have hfilled :
        ⦃fun s => ⌜∃ octets, Staged w start octets s.toWorkspace⌝⦄
        (do
          match ← fillAndMove staged target contents with
          | .ok () => return .ok ()
          | .error e =>
              let _ ← (Host.remove staged : StateM Machine (Except FileFault Unit))
              return .error e : StateM Machine (Except WriteError Unit))
        ⦃⇓ result s => ⌜Replaced made w target contents result s.toWorkspace⌝⦄ := by
      refine Triple.bind _ _ (moved_fillAndMove made hsound hstart target contents) fun result => ?_
      cases result with
      | ok _ => exact Triple.pure _ SPred.entails.rfl
      | error e =>
        exact Triple.bind _ _ (becomes_remove hstart) fun _ => Triple.pure _ SPred.entails.rfl
    exact hfilled created ⟨[], hstaged⟩

/-- **What replacing a file does** after it has tried to make the directory of the target. -/
def replacePrepared (target : Path) (contents : Except WriteError Octets) :
    Except FileError Unit → StateM Machine (Except WriteError Unit)
  | .error e => return .error (.file e)
  | .ok () => do
      match ← checkSteps target.parent.anchor [] target.parent.segments with
      | .error e => return .error (.file e)
      | .ok () =>
          let directory := target.parent.absolute (← Host.workingDirectory)
          let name := "." ++ target.name ++ "." ++ (← Host.spareName) ++ ".tmp"
          stageAndMove (directory.child name) target contents

theorem replaceContents_eq (target : Path) (contents : Except WriteError Octets)
    (createParents : Bool) :
    (replaceContents target contents createParents : StateM Machine _)
      = (if createParents then makeDirectories target.parent else pure (.ok ()))
        >>= replacePrepared target contents := by
  cases createParents with
  | false => rfl
  | true =>
    refine congrArg (makeDirectories target.parent >>= ·) (funext fun prepared => ?_)
    cases prepared with
    | ok _ => rfl
    | error e => rfl

variable (made) in
theorem replaced_replacePrepared (hsound : w.Sound) (target : Path)
    (contents : Except WriteError Octets) (prepared : Except FileError Unit) :
    ⦃fun s => ⌜s.toWorkspace = w⌝⦄
    replacePrepared target contents prepared
    ⦃⇓ result s => ⌜Replaced made w target contents result s.toWorkspace⌝⦄ := by
  have hunchanged (machine : Machine) (hsame : machine.toWorkspace = w) (touched : Place → Prop) :
      Becomes made touched w machine.toWorkspace := hsame ▸ .refl made touched w
  have hsteps := @invariant_checkSteps (fun machine => machine.toWorkspace = w)
    target.parent.anchor [] target.parent.segments
  have hstage := replaced_stageAndMove made hsound
  unfold replacePrepared
  cases prepared with
  | error e => exact Triple.pure _ hunchanged
  | ok _ =>
    mvcgen [hsteps, hstage]
    exact hunchanged _ ‹_›

/-- **Replacing a file is all or nothing**, and makes only directories that lead to it, if it may
make any. -/
theorem replaced_replaceContents (hsound : w.Sound) (target : Path)
    (contents : Except WriteError Octets) (createParents : Bool) :
    ⦃fun s => ⌜s.toWorkspace = w⌝⦄
    (replaceContents target contents createParents : StateM Machine (Except WriteError Unit))
    ⦃⇓ result s => ⌜Replaced (fun place => createParents ∧ target.parent.Leads w.directory place)
      w target contents result s.toWorkspace⌝⦄ := by
  have hprepare :
      ⦃fun s => ⌜s.toWorkspace = w⌝⦄
      (if createParents then makeDirectories target.parent else pure (.ok ()) :
        StateM Machine (Except FileError Unit))
      ⦃⇓ _ s => ⌜∀ touched,
        Becomes (fun place => createParents ∧ target.parent.Leads w.directory place) touched w
          s.toWorkspace⌝⦄ := by
    rintro machine rfl
    cases createParents with
    | false => exact fun touched => .refl _ touched _
    | true =>
      intro touched
      have hmade := run_of_triple (becomes_makeDirectories hsound target.parent) (.refl _ touched _)
      exact hmade.mono (fun place hplace => ⟨rfl, hplace⟩) fun _ ht => ht
  rw [replaceContents_eq]
  refine Triple.bind _ _ hprepare fun prepared => ?_
  -- What is made on the way does not move the places of paths.
  intro ready hready
  have hbegun := hready fun _ => False
  have hreplaced := run_of_triple (replaced_replacePrepared
    (fun place => createParents ∧ target.parent.Leads w.directory place)
    (hbegun.sound_workspace hsound) target contents prepared) (rfl : _ = ready.toWorkspace)
  show Replaced _ w target contents ((replacePrepared target contents prepared).run ready).1 _
  cases hresult : ((replacePrepared target contents prepared).run ready).1 with
  | error e =>
    rw [hresult] at hreplaced
    exact fun touched => (hready touched).trans (hreplaced touched)
  | ok _ =>
    rw [hresult] at hreplaced
    obtain ⟨hname, hoctets, hbecomes⟩ := hreplaced
    rw [hbegun.directory] at hbecomes
    exact ⟨hname, hoctets, (hready _).trans hbecomes⟩

end Files

end RuleCatalogue
