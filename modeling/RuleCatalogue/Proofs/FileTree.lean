import RuleCatalogue.FileTree
import RuleCatalogue.Proofs.Path

/-!
# Laws of file trees

A tree without links has one place for every path: the one that the segments spell when each double
point takes back the segment before it (`Path.place`).  Following a path can fail, but it cannot
lead elsewhere.

## Main definitions

* `FileTree.Sound` says that what a place holds stands in a directory, and `Workspace.Sound` that
  the working directory is one.
* `Workspace.held` is what a path leads to.
* `Workspace.Becomes` says which directories may be made and which places may be touched on the way
  from one workspace to another.

## Main statements

* `Workspace.held_eq_get?`: in a sound tree a path without double points leads to what its place
  holds.
* `Workspace.Becomes.trans`: what is made and touched along the way adds up to nothing more.
-/

namespace RuleCatalogue

namespace Path

/-- **The place of a path**, seen from a working directory, in a tree without links. -/
def place (p : Path) (directory : Place) : Place :=
  p.segments.foldl (push true) (if p.isAbsolute then [] else directory)

/-- Segments without double points spell their own place. -/
theorem foldl_push_of_not_mem {segments : List String} (h : ".." ∉ segments)
    (before : List String) :
    segments.foldl (push true) before = before ++ segments := by
  induction segments generalizing before with
  | nil => rw [List.foldl_nil, List.append_nil]
  | cons segment rest ih =>
    have hsegment : segment ≠ ".." := fun e => h (e ▸ List.mem_cons_self)
    have hpush : push true before segment = before ++ [segment] := if_neg hsegment
    rw [List.foldl_cons, hpush, ih fun hrest => h (List.mem_cons_of_mem segment hrest),
      List.append_assoc, List.singleton_append]

/-- A path that never goes up is placed by putting its segments behind the directory; going up is
what would make the place depend on more than the names. -/
theorem place_of_not_mem {p : Path} (h : ".." ∉ p.segments) (directory : Place) :
    p.place directory = (if p.isAbsolute then [] else directory) ++ p.segments :=
  foldl_push_of_not_mem h _

/-- Names behind a path are put behind its place. -/
theorem place_append (p : Path) {names : List String} (h : ".." ∉ names) (directory : Place) :
    (⟨p.anchor, p.segments ++ names⟩ : Path).place directory = p.place directory ++ names := by
  rw [place, List.foldl_append, foldl_push_of_not_mem h]
  rfl

/-- **A path is made absolute** by spelling its place.  `h` asks the working directory to have no
double point of its own. -/
theorem segments_absolute {directory : Place} (h : ".." ∉ directory) (p : Path) :
    (p.absolute ⟨.root, directory⟩).segments = p.place directory := by
  rw [absolute, resolved, isAbsolute_within rfl, place, within]
  split
  · rfl
  · rw [List.foldl_append, foldl_push_of_not_mem h, List.nil_append]

end Path

namespace FileTree

variable {tree later : FileTree} {place other start : Place} {entry : FileEntry}

/-! ## What places hold -/

theorem get?_of_ne (h : place ≠ []) : tree.get? place = tree.entries.lookup place :=
  if_neg h

theorem lookup_filter_ne (entries : List (Place × FileEntry)) (place other : Place) :
    (entries.filter fun e => e.1 ≠ place).lookup other
      = if other = place then none else entries.lookup other := by
  induction entries with
  | nil => simp
  | cons first rest ih =>
    obtain ⟨key, value⟩ := first
    by_cases hkey : key = place
    · -- What is left out stands at the place itself.
      subst hkey
      rw [List.filter_cons_of_neg (by simp), ih]
      split
      · rfl
      · next hother => rw [List.lookup_cons, beq_eq_false_iff_ne.mpr hother]
    · rw [List.filter_cons_of_pos (by simpa using hkey), List.lookup_cons, List.lookup_cons, ih]
      split
      · next hother =>
        have hne : other ≠ place := by
          rw [beq_iff_eq.mp hother]
          exact hkey
        rw [if_neg hne]
      · rfl

/-- A place that is erased has nothing, and every other keeps its entry.  The root is no entry of
the list, so it cannot be erased. -/
theorem get?_erase (hplace : place ≠ []) (other : Place) :
    (tree.erase place).get? other = if other = place then none else tree.get? other := by
  by_cases hother : other = []
  · subst hother
    rw [if_neg hplace.symm]
    rfl
  · rw [get?_of_ne hother, get?_of_ne hother, erase, lookup_filter_ne]

/-- A place that is written has what was put there, and every other keeps its entry. -/
theorem get?_put (hplace : place ≠ []) (entry : FileEntry) (other : Place) :
    (tree.put place entry).get? other = if other = place then some entry else tree.get? other := by
  by_cases hother : other = []
  · subst hother
    rw [if_neg hplace.symm]
    rfl
  · rw [get?_of_ne hother, put, List.lookup_cons]
    split
    · next hsame => rw [if_pos (beq_iff_eq.mp hsame)]
    · next hdifferent =>
      have hne : other ≠ place := beq_eq_false_iff_ne.mp hdifferent
      rw [← get?_of_ne hother, get?_erase hplace, if_neg hne, if_neg hne]

/-- Where no directory stands is not the root. -/
theorem ne_root_of_get? (h : tree.get? place ≠ some .directory) : place ≠ [] := by
  rintro rfl
  exact h rfl

/-- **Everything stands in a directory.** -/
def Sound (tree : FileTree) : Prop :=
  ∀ place, tree.get? place ≠ none → tree.get? place.dropLast = some .directory

/-- Only the places that are entered have to be looked at. -/
theorem sound_iff :
    tree.Sound ↔ ∀ e ∈ tree.entries, tree.get? e.1.dropLast = some .directory := by
  constructor
  · intro h e he
    refine h e.1 ?_
    unfold get?
    split
    · exact nofun
    · refine fun hnone => ?_
      have hkeys := List.lookup_eq_none_iff.mp hnone e he
      exact absurd hkeys (by simp)
  · intro h place hplace
    by_cases hroot : place = []
    · subst hroot
      rfl
    · rw [get?_of_ne hroot] at hplace
      obtain ⟨held, hheld⟩ := Option.ne_none_iff_exists'.mp hplace
      obtain ⟨before, after, hentries, -⟩ := List.lookup_eq_some_iff.mp hheld
      refine h (place, held) ?_
      rw [hentries]
      exact List.mem_append_right _ List.mem_cons_self

instance (tree : FileTree) : Decidable tree.Sound :=
  decidable_of_iff' _ sound_iff

/-- **A tree stays sound** where something is put into a directory, unless it replaces one.
Replacing a directory would leave what it holds without a parent, hence `hplace`. -/
theorem Sound.put (h : tree.Sound) (hplace : tree.get? place ≠ some .directory)
    (hparent : tree.get? place.dropLast = some .directory) (entry : FileEntry) :
    (tree.put place entry).Sound := by
  have hne := ne_root_of_get? hplace
  have hkept {other : Place} (hdirectory : tree.get? other = some .directory) :
      (tree.put place entry).get? other = some .directory := by
    rw [get?_put hne, if_neg, hdirectory]
    rintro rfl
    exact hplace hdirectory
  intro other hother
  rw [get?_put hne] at hother
  split at hother
  · next hsame =>
    subst hsame
    exact hkept hparent
  · exact hkept (h other hother)

/-- What holds a place stands behind directories alone. -/
theorem Sound.directory_of_append (h : tree.Sound) {before after : Place} (hafter : after ≠ [])
    (hheld : tree.get? (before ++ after) ≠ none) : tree.get? before = some .directory := by
  induction after using List.reverseRecOn with
  | nil => exact absurd rfl hafter
  | append_singleton init last ih =>
    have hparent := h _ hheld
    rw [← List.append_assoc, List.dropLast_concat] at hparent
    by_cases hinit : init = []
    · rwa [hinit, List.append_nil] at hparent
    · exact ih hinit (by rw [hparent]; exact nofun)

/-! ## Following segments -/

/-- One step of following a path needs a directory to stand in; what the segment names need not
exist yet. -/
theorem follow_cons_eq_ok {segment : String} {rest : List String} :
    tree.follow start (segment :: rest) = .ok place
      ↔ tree.get? start = some .directory
        ∧ tree.follow (if segment = ".." then start.dropLast else start ++ [segment]) rest
          = .ok place := by
  rw [follow]
  cases hget : tree.get? start with
  | none => simp
  | some held => cases held <;> simp

/-- **Following leads to the place that the segments spell**, or nowhere.  There are no links in the
tree, so a double point goes back to the segment before it, as `Path.push` does on the text. -/
theorem follow_eq_ok {segments : List String} (hstart : ".." ∉ start)
    (h : tree.follow start segments = .ok place) :
    place = segments.foldl (Path.push true) start := by
  induction segments generalizing start with
  | nil =>
    rw [follow] at h
    exact (Except.ok.inj h).symm
  | cons segment rest ih =>
    obtain ⟨-, hrest⟩ := follow_cons_eq_ok.mp h
    rw [← Path.push_of_not_mem hstart] at hrest
    exact ih (Path.not_mem_push hstart segment) hrest

/-- Where it leads to, it leads to in every tree with the same directories and more. -/
theorem follow_mono {segments : List String}
    (hkept : ∀ place, tree.get? place = some .directory → later.get? place = some .directory)
    (h : tree.follow start segments = .ok place) : later.follow start segments = .ok place := by
  induction segments generalizing start with
  | nil => exact h
  | cons segment rest ih =>
    obtain ⟨hstart, hrest⟩ := follow_cons_eq_ok.mp h
    exact follow_cons_eq_ok.mpr ⟨hkept start hstart, ih hrest⟩

/-- **The place stands in a directory**, whether it holds something or not: the last step needs a
directory to stand in, and a step back leads to the parent of one. -/
theorem Sound.parent_of_follow (hsound : tree.Sound) {segments : List String}
    (hstart : tree.get? start.dropLast = some .directory)
    (h : tree.follow start segments = .ok place) :
    tree.get? place.dropLast = some .directory := by
  induction segments generalizing start with
  | nil =>
    rw [follow] at h
    rwa [← Except.ok.inj h]
  | cons segment rest ih =>
    obtain ⟨hdirectory, hrest⟩ := follow_cons_eq_ok.mp h
    refine ih ?_ hrest
    split
    · exact hsound _ (by rw [hstart]; exact nofun)
    · rwa [List.dropLast_concat]

/-- Segments without double points are followed to what their place holds. -/
theorem Sound.follow_of_held (hsound : tree.Sound) {segments : List String}
    (hplain : ".." ∉ segments) (hheld : tree.get? (start ++ segments) ≠ none) :
    tree.follow start segments = .ok (start ++ segments) := by
  induction segments generalizing start with
  | nil => rw [follow, List.append_nil]
  | cons segment rest ih =>
    have hsegment : segment ≠ ".." := fun e => hplain (e ▸ List.mem_cons_self)
    have hrest : ".." ∉ rest := fun hmem => hplain (List.mem_cons_of_mem segment hmem)
    have hsplit : start ++ segment :: rest = (start ++ [segment]) ++ rest := by simp
    refine follow_cons_eq_ok.mpr ⟨hsound.directory_of_append (List.cons_ne_nil _ _) hheld, ?_⟩
    rw [if_neg hsegment, hsplit]
    exact ih hrest (hsplit ▸ hheld)

/-- A path is followed through any of its beginnings. -/
theorem follow_append_eq_ok {before rest : List String} :
    tree.follow start (before ++ rest) = .ok place
      ↔ ∃ mid, tree.follow start before = .ok mid ∧ tree.follow mid rest = .ok place := by
  induction before generalizing start with
  | nil => simp [follow]
  | cons segment before ih =>
    rw [List.cons_append, follow_cons_eq_ok, ih]
    constructor
    · rintro ⟨hstart, mid, hmid, hrest⟩
      exact ⟨mid, follow_cons_eq_ok.mpr ⟨hstart, hmid⟩, hrest⟩
    · rintro ⟨mid, hmid, hrest⟩
      obtain ⟨hstart, hmid⟩ := follow_cons_eq_ok.mp hmid
      exact ⟨hstart, mid, hmid, hrest⟩

/-- What is held behind a place is held behind something. -/
theorem held_of_follow {rest : List String} (h : tree.follow start rest = .ok place)
    (hheld : tree.get? place ≠ none) : tree.get? start ≠ none := by
  cases rest with
  | nil =>
    rw [follow] at h
    rwa [Except.ok.inj h]
  | cons segment rest =>
    rw [(follow_cons_eq_ok.mp h).1]
    exact nofun

end FileTree

namespace Workspace

open FileTree

variable {w before mid after : Workspace} {p : Path} {place : Place} {octets : Octets}

/-- **The working directory is a directory** of a sound tree, and no step back is part of it. -/
structure Sound (w : Workspace) : Prop where
  tree : w.tree.Sound
  directory : w.tree.get? w.directory = some .directory
  plain : ".." ∉ w.directory

/-! ## What paths lead to -/

/-- **What a path leads to**, if it leads to anything. -/
def held (w : Workspace) (p : Path) : Option FileEntry :=
  (w.find p).toOption.map Prod.snd

/-- **In a sound workspace a located path is at the place its text says.** `hsound` keeps double
points out of the working directory, from which a path that is not rooted is followed. -/
theorem place_of_locate (hsound : w.Sound) (h : w.locate p = .ok place) :
    place = p.place w.directory := by
  refine follow_eq_ok ?_ h
  split
  · exact List.not_mem_nil
  · exact hsound.plain

/-- A located path stands in a directory that exists, whether or not it exists itself. -/
theorem parent_of_locate (hsound : w.Sound) (h : w.locate p = .ok place) :
    w.tree.get? place.dropLast = some .directory := by
  refine hsound.tree.parent_of_follow ?_ h
  split
  · rfl
  · exact hsound.tree _ (by rw [hsound.directory]; exact nofun)

/-- Finding a path is locating it where there is an entry. -/
theorem find_eq_ok_iff {entry : FileEntry} :
    w.find p = .ok (place, entry) ↔ w.locate p = .ok place ∧ w.tree.get? place = some entry := by
  unfold find
  cases hplace : w.locate p with
  | error fault => simp
  | ok found =>
    dsimp only
    cases hget : w.tree.get? found with
    | none =>
      simp only [reduceCtorEq, Except.ok.injEq, false_iff]
      rintro ⟨rfl, hentry⟩
      exact nomatch hget.symm.trans hentry
    | some held =>
      simp only [Except.ok.injEq, Prod.mk.injEq]
      constructor
      · rintro ⟨rfl, rfl⟩
        exact ⟨rfl, hget⟩
      · rintro ⟨rfl, hentry⟩
        exact ⟨rfl, Option.some.inj (hget.symm.trans hentry)⟩

/-- A path is a directory when it is located at one; a path that cannot be located is none. -/
theorem isDirectory_iff :
    w.isDirectory p ↔ ∃ place, w.locate p = .ok place ∧ w.tree.get? place = some .directory := by
  simp only [← find_eq_ok_iff]
  unfold isDirectory
  cases hfind : w.find p with
  | error fault => simp
  | ok found =>
    obtain ⟨place, entry⟩ := found
    cases entry <;> simp

/-- What a path holds is what is found there. -/
theorem held_eq_some_iff {entry : FileEntry} :
    w.held p = some entry ↔ ∃ place, w.find p = .ok (place, entry) := by
  unfold held
  cases w.find p with
  | error fault => simp [Except.toOption]
  | ok found => simp [Except.toOption, Prod.ext_iff]

/-- Only files are read. -/
theorem read_eq_ok_iff : w.read p = .ok octets ↔ w.held p = some (.file octets) := by
  rw [held_eq_some_iff]
  unfold read
  cases w.find p with
  | error fault => simp
  | ok found =>
    obtain ⟨place, entry⟩ := found
    cases entry <;> simp

/-- **A path without double points leads to what its place holds.** With one the two may differ: a
path that goes through a directory that is missing and back leads nowhere. -/
theorem held_eq_get? (hsound : w.Sound) (hplain : ".." ∉ p.segments) :
    w.held p = w.tree.get? (p.place w.directory) := by
  refine Option.ext fun entry => ?_
  rw [held_eq_some_iff]
  constructor
  · rintro ⟨place, hfind⟩
    obtain ⟨hplace, hentry⟩ := find_eq_ok_iff.mp hfind
    rwa [place_of_locate hsound hplace] at hentry
  · intro hentry
    refine ⟨p.place w.directory, find_eq_ok_iff.mpr ⟨?_, hentry⟩⟩
    rw [Path.place_of_not_mem hplain] at hentry ⊢
    exact hsound.tree.follow_of_held hplain (by rw [hentry]; exact nofun)

/-- A path that ends in a double point leads to no regular file. -/
theorem held_ne_file_of_stepBack (hsound : w.Sound) (hlast : p.segments.getLast? = some "..") :
    w.held p ≠ some (.file octets) := by
  obtain ⟨init, hsegments⟩ := List.getLast?_eq_some_iff.mp hlast
  -- The last step goes from a directory to the one that it stands in.
  have hback (start place : Place) (h : w.tree.follow start (init ++ [".."]) = .ok place) :
      w.tree.get? place = some .directory := by
    clear hsegments
    induction init generalizing start with
    | nil =>
      obtain ⟨hdirectory, hend⟩ := follow_cons_eq_ok.mp h
      rw [if_pos rfl, follow] at hend
      rw [← Except.ok.inj hend]
      exact hsound.tree start (by rw [hdirectory]; exact nofun)
    | cons segment rest ih => exact ih _ (follow_cons_eq_ok.mp h).2
  intro hheld
  obtain ⟨place, hfind⟩ := held_eq_some_iff.mp hheld
  obtain ⟨hplace, hfile⟩ := find_eq_ok_iff.mp hfind
  rw [locate, hsegments] at hplace
  exact nomatch (hback _ place hplace).symm.trans hfile

/-! ## One more step -/

section Steps

variable {anchor : Anchor} {segments : List String} {segment : String} {here : Place}

/-- The last segment is looked up in the directory that the segments before it lead to. -/
theorem locate_snoc_eq_ok :
    w.locate ⟨anchor, segments ++ [segment]⟩ = .ok place
      ↔ ∃ mid, w.locate ⟨anchor, segments⟩ = .ok mid ∧ w.tree.get? mid = some .directory
        ∧ place = if segment = ".." then mid.dropLast else mid ++ [segment] := by
  have hstep (mid : Place) : w.tree.follow mid [segment] = .ok place
      ↔ w.tree.get? mid = some .directory
        ∧ place = if segment = ".." then mid.dropLast else mid ++ [segment] := by
    rw [follow_cons_eq_ok, follow, Except.ok.injEq, eq_comm (a := place)]
  simp only [locate, follow_append_eq_ok, hstep]
  rfl

/-- **One more step of a path**, from a directory on, is one more step in the tree, no matter
whether a double point is kept or removes the segment before it.  Without `hdirectory` the step
would be refused in the tree, but not in the text. -/
theorem locate_push (h : w.locate ⟨anchor, segments⟩ = .ok here)
    (hdirectory : w.tree.get? here = some .directory) (segment : String) :
    w.locate ⟨anchor, Path.push (anchor != .here) segments segment⟩
      = .ok (if segment = ".." then here.dropLast else here ++ [segment]) := by
  have hsnoc : w.locate ⟨anchor, segments ++ [segment]⟩
      = .ok (if segment = ".." then here.dropLast else here ++ [segment]) :=
    locate_snoc_eq_ok.mpr ⟨here, h, hdirectory, rfl⟩
  unfold Path.push
  split
  · next hback =>
    rw [hback, if_pos rfl] at hsnoc
    split
    · next hnone =>
      rw [List.getLast?_eq_none_iff] at hnone
      subst hnone
      split
      · next hrooted =>
        have hhere : here = [] := by
          rw [locate, Path.isAbsolute, if_pos hrooted, follow] at h
          exact (Except.ok.inj h).symm
        rw [h, hhere]
        rfl
      · rwa [hback]
    · rwa [hback]
    · next last hname hlast =>
      obtain ⟨init, rfl⟩ := List.getLast?_eq_some_iff.mp hlast
      obtain ⟨mid, hmid, -, rfl⟩ := locate_snoc_eq_ok.mp h
      have hplain : last ≠ ".." := fun e => hname (by rw [e])
      rw [List.dropLast_concat, if_neg hplain, List.dropLast_concat]
      exact hmid
  · next hname =>
    rwa [if_neg hname] at hsnoc

end Steps

/-! ## From one workspace to another -/

/-- **A workspace becomes another**: directories stay, `made` are the places where a directory may
be new, and `touched` are the places where anything may have happened to a regular file. -/
structure Becomes (made touched : Place → Prop) (before after : Workspace) : Prop where
  directory : after.directory = before.directory
  sound : before.tree.Sound → after.tree.Sound
  kept : ∀ place, before.tree.get? place = some .directory →
    after.tree.get? place = some .directory
  rest : ∀ place, ¬ touched place →
    after.tree.get? place = before.tree.get? place
      ∨ made place ∧ before.tree.get? place = none
        ∧ after.tree.get? place = some .directory

variable {made touched made' touched' : Place → Prop}

namespace Becomes

/-- A workspace becomes itself. -/
theorem refl (made touched : Place → Prop) (w : Workspace) : Becomes made touched w w where
  directory := rfl
  sound h := h
  kept _ h := h
  rest _ _ := Or.inl rfl

/-- Changes made one after another at the same places are one change. -/
theorem trans (h : Becomes made touched before mid) (h' : Becomes made touched mid after) :
    Becomes made touched before after where
  directory := h'.directory.trans h.directory
  sound hsound := h'.sound (h.sound hsound)
  kept place hplace := h'.kept place (h.kept place hplace)
  rest place hplace := by
    rcases h.rest place hplace with hsame | ⟨hmade, hnone, hdirectory⟩
    · rw [← hsame]
      exact h'.rest place hplace
    · exact Or.inr ⟨hmade, hnone, h'.kept place hdirectory⟩

/-- More places allowed allow the same changes. -/
theorem mono (h : Becomes made touched before after) (hmade : ∀ place, made place → made' place)
    (htouched : ∀ place, touched place → touched' place) : Becomes made' touched' before after where
  directory := h.directory
  sound := h.sound
  kept := h.kept
  rest place hplace :=
    (h.rest place fun ht => hplace (htouched place ht)).imp_right
      fun ⟨hm, hchange⟩ => ⟨hmade place hm, hchange⟩

/-- A place that is neither made nor touched holds what it held. -/
theorem get?_eq (h : Becomes made touched before after) (hmade : ¬ made place)
    (htouched : ¬ touched place) : after.tree.get? place = before.tree.get? place :=
  (h.rest place htouched).resolve_right fun ⟨hm, _⟩ => hmade hm

/-- What was located stays where it is: directories are made but never removed. -/
theorem locate_eq_ok (h : Becomes made touched before after)
    (hplace : before.locate p = .ok place) : after.locate p = .ok place := by
  rw [locate] at hplace ⊢
  rw [h.directory]
  exact follow_mono h.kept hplace

/-- A sound workspace stays sound. -/
theorem sound_workspace (h : Becomes made touched before after) (hsound : before.Sound) :
    after.Sound where
  tree := h.sound hsound.tree
  directory := by
    rw [h.directory]
    exact h.kept _ hsound.directory
  plain := by
    rw [h.directory]
    exact hsound.plain

/-- **A path without double points** leads to what it led to, if its place is neither made nor
touched.  This is the frame that every claim about untouched files uses. -/
theorem held_eq (h : Becomes made touched before after) (hsound : before.Sound)
    (hplain : ".." ∉ p.segments) (hmade : ¬ made (p.place before.directory))
    (htouched : ¬ touched (p.place before.directory)) : after.held p = before.held p := by
  rw [held_eq_get? (h.sound_workspace hsound) hplain, held_eq_get? hsound hplain, h.directory]
  exact h.get?_eq hmade htouched

/-- **Only what the places hold matters**: the order of the entries in the tree, which removing and
putting change, does not. -/
theorem of_get?_eq (h : Becomes made touched before mid)
    (hdirectory : after.directory = mid.directory)
    (hsame : ∀ place, after.tree.get? place = mid.tree.get? place) :
    Becomes made touched before after where
  directory := hdirectory.trans h.directory
  sound hsound place hplace := by
    rw [hsame] at hplace ⊢
    exact h.sound hsound place hplace
  kept place hplace := (hsame place).trans (h.kept place hplace)
  rest place hplace := by
    rw [hsame]
    exact h.rest place hplace

/-- **A directory is made** where nothing is, so it is among what may be made and touches nothing
that was there. -/
theorem putDirectory (hnone : w.tree.get? place = none)
    (hparent : w.tree.Sound → w.tree.get? place.dropLast = some .directory) :
    Becomes (· = place) touched w { w with tree := w.tree.put place .directory } := by
  have hnew : w.tree.get? place ≠ some .directory := by rw [hnone]; exact nofun
  have hne := ne_root_of_get? hnew
  refine ⟨rfl, fun hsound => hsound.put hnew (hparent hsound) _, fun other hother => ?_,
    fun other _ => ?_⟩
  · show (w.tree.put place .directory).get? other = _
    rw [get?_put hne]
    split
    · rfl
    · exact hother
  · dsimp only
    rw [get?_put hne]
    split
    · next hsame => exact Or.inr ⟨hsame, hsame ▸ hnone, rfl⟩
    · exact Or.inl rfl

/-- **A regular file is put** where no directory is, in place of a file or as a new one. -/
theorem putFile (hplace : w.tree.get? place ≠ some .directory)
    (hparent : w.tree.Sound → w.tree.get? place.dropLast = some .directory) (octets : Octets) :
    Becomes made (· = place) w { w with tree := w.tree.put place (.file octets) } := by
  have hne := ne_root_of_get? hplace
  refine ⟨rfl, fun hsound => hsound.put hplace (hparent hsound) _, fun other hother => ?_,
    fun other hother => Or.inl ?_⟩
  · show (w.tree.put place (.file octets)).get? other = _
    rw [get?_put hne, if_neg, hother]
    rintro rfl
    exact hplace hother
  · show (w.tree.put place (.file octets)).get? other = _
    rw [get?_put hne, if_neg hother]

end Becomes

end Workspace

end RuleCatalogue
