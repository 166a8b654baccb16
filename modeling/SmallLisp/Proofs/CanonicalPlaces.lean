import Mathlib.Data.List.Nodup
import Mathlib.Data.List.Perm.Subperm
import SmallLisp.Proofs.PathFaults
import SmallLisp.Proofs.Settled

/-! # The files that can be loaded

A module is loaded from the one place that its path names, whatever links and detours lead there.
Such a place is reached from the root name by name, without a link (`FileTree.Direct`), and opening
the path of the place leads to the place again (`FileTree.Direct.walkFrom`).  So different paths
from which something is loaded are the places of different files, and there are no more of them than
there are files (`Loadable.length_le_fileCount`).
-/
namespace SmallLisp

namespace FileTree

/-- A place that is reached from the root by names alone: everything on the way is a directory, and
nothing is a link. -/
inductive Direct (tree : FileTree) : Location → Prop
  | root : Direct tree []
  | child {place : Location} {name : String} {node : Node} (hplace : Direct tree place)
      (hname : name ≠ "..") (hfound : tree.lookUp place name = .ok node)
      (hnode : ∀ text, node ≠ .link text) : Direct tree (place ++ [name])

/-- No name in a tree is empty or the single point, as it is with every real file system: such
names stay where they are when they are followed. -/
def WellNamed (tree : FileTree) : Prop :=
  ∀ e ∈ tree.entries.entries, ∀ name ∈ e.1, stays name = false

/-- How many files a tree holds. -/
def fileCount (tree : FileTree) : Nat :=
  tree.entries.entries.countP fun e => e.2 matches .file _

variable {tree : FileTree} {place there : Location}

theorem mem_entries_of_file {bytes : List UInt8} (h : tree.node? place = some (.file bytes)) :
    (place, .file bytes) ∈ tree.entries.entries := by
  rcases mem_entries_of_node? h with rfl | hmem
  · cases h
  · exact hmem

/-! ## Direct places -/

namespace Direct

theorem dropLast (h : tree.Direct place) : tree.Direct place.dropLast := by
  cases h with
  | root => exact .root
  | child hplace =>
    rw [List.dropLast_concat]
    exact hplace

theorem mem_keys (h : tree.Direct place) : place ∈ [] :: tree.entries.keys := by
  cases h with
  | root => exact List.mem_cons_self
  | child _ _ hfound =>
    rcases mem_entries_of_node? (node?_of_lookUp hfound) with hroot | hmem
    · rw [hroot]
      exact List.mem_cons_self
    · exact List.mem_cons_of_mem _ (List.mem_map_of_mem hmem)

/-- To open the path of a direct place leads there, whatever names follow. -/
theorem walkFrom (hw : tree.WellNamed) (h : tree.Direct place) (links : Nat)
    (rest : List String) : tree.walkFrom links [] (place ++ rest) =
      tree.walkFrom links place rest := by
  induction h generalizing rest with
  | root => rfl
  | @child place name node hplace hname hfound hnode ih =>
    have hnamed : stays name = false := by
      rcases mem_entries_of_node? (node?_of_lookUp hfound) with hroot | hmem
      · exact absurd hroot (List.append_ne_nil_of_right_ne_nil _ (List.cons_ne_nil _ _))
      · exact hw _ hmem name (List.mem_append_right _ List.mem_cons_self)
    rw [List.append_assoc, List.singleton_append, ih, FileTree.walkFrom, if_neg, hfound]
    · cases node with
      | link text => exact absurd rfl (hnode text)
      | _ => rfl
    · rw [hnamed]
      exact not_or.2 ⟨Bool.false_ne_true, hname⟩

end Direct

/-- The place that a path names is a direct one. -/
theorem direct_canonical {path : Path} (h : tree.canonical [] path = .ok there) :
    tree.Direct there :=
  canonical_induction .root (fun _ hplace => hplace.dropLast)
    (fun _ _ _ hplace hname hfound hnode => hplace.child hname hfound hnode) h

/-! ## Reading -/

/-- What is read stands in a file of the tree. -/
theorem exists_file_of_readText {here : WorkingDirectory} {path : Path} {text : List Char}
    (h : tree.readText here path = .ok text) :
    ∃ place bytes, tree.walk here path = .ok place ∧ tree.node? place = some (.file bytes) ∧
      Text.decode bytes = .ok text := by
  rw [readText, read] at h
  rcases hwalk : tree.walk here path with e | place
  · rw [hwalk] at h
    cases h
  · rw [hwalk] at h
    simp only [bind, Except.bind] at h
    rcases hnode : tree.node? place with _ | node
    · rw [hnode] at h
      cases h
    · rw [hnode] at h
      cases node with
      | file bytes =>
        rcases hdecode : Text.decode bytes with fault | text'
        · simp only [pure, Except.pure, hdecode] at h
          cases h
        · simp only [pure, Except.pure, hdecode] at h
          cases h
          exact ⟨place, bytes, rfl, hnode, hdecode⟩
      | _ => cases h

/-- The texts that can be read are bounded, in whatever way they are measured. -/
theorem exists_bound_of_readText (tree : FileTree) (here : WorkingDirectory)
    (size : List Char → Nat) :
    ∃ bound, ∀ path text, tree.readText here path = .ok text → size text ≤ bound := by
  have hentries : ∀ entries : List (Location × Node), ∃ bound, ∀ e ∈ entries, ∀ bytes text,
      e.2 = .file bytes → Text.decode bytes = .ok text → size text ≤ bound := by
    intro entries
    induction entries with
    | nil => exact ⟨0, nofun⟩
    | cons e rest ih =>
      obtain ⟨bound, hrest⟩ := ih
      let own : Nat :=
        match e.2 with
        | .file bytes => (Text.decode bytes).toOption.elim 0 size
        | _ => 0
      refine ⟨max own bound, List.forall_mem_cons.2 ⟨fun bytes text hfile hdecode => ?_, ?_⟩⟩
      · have hown : own = size text := by
          simp only [own, hfile, hdecode]
          rfl
        exact hown ▸ Nat.le_max_left own bound
      · exact fun e' he' bytes text hfile hdecode =>
          Nat.le_trans (hrest e' he' bytes text hfile hdecode) (Nat.le_max_right own bound)
  obtain ⟨bound, hbound⟩ := hentries tree.entries.entries
  refine ⟨bound, fun path text htext => ?_⟩
  obtain ⟨place, bytes, -, hnode, hdecode⟩ := exists_file_of_readText htext
  exact hbound _ (mem_entries_of_file hnode) bytes text rfl hdecode

/-- A direct place of which the path can be read is the place of a file. -/
theorem Direct.exists_file (hw : tree.WellNamed) (h : tree.Direct place)
    {here : WorkingDirectory} {text : List Char}
    (htext : tree.readText here (.ofLocation place) = .ok text) :
    ∃ bytes, (place, .file bytes) ∈ tree.entries.entries := by
  obtain ⟨place', bytes, hwalk, hnode, -⟩ := exists_file_of_readText htext
  have hsame : place' = place := by
    rw [walk, WorkingDirectory.start] at hwalk
    split at hwalk
    · cases hwalk
    · split at hwalk
      · cases hwalk
      · have hplace := h.walkFrom hw linkLimit []
        rw [List.append_nil, FileTree.walkFrom] at hplace
        have hstart : tree.walkFrom linkLimit [] place = .ok place' := hwalk
        rw [hplace] at hstart
        exact (Except.ok.inj hstart).symm
  exact ⟨bytes, mem_entries_of_file (hsame ▸ hnode)⟩

end FileTree

/-! ## Paths of modules -/

open Evaluation

/-- A path from which a module can be loaded. -/
def Loadable (setting : Setting) (path : Path) : Prop :=
  ∃ place text, setting.files.Direct place ∧ path = .ofLocation place ∧
    setting.files.readText setting.here path = .ok text

/-- The path that a specifier stands for is that of a direct place. -/
theorem exists_direct_of_modulePath {setting : Setting} {specifier : String} {path : Path}
    (h : modulePath setting specifier = .ok path) :
    ∃ place, setting.files.Direct place ∧ path = .ofLocation place := by
  rw [modulePath] at h
  rcases hcandidate : candidatePath setting specifier with f | candidate
  · rw [hcandidate] at h
    cases h
  · rw [hcandidate] at h
    simp only [bind, Except.bind] at h
    rcases hplace : setting.files.canonical [] candidate with e | place
    · rw [hplace] at h
      rcases e with (_ | _ | _ | _ | _ | _) | _ | _ <;> cases h
    · rw [hplace] at h
      cases h
      exact ⟨place, FileTree.direct_canonical hplace, rfl⟩

namespace Loadable
variable {setting : Setting} {paths : List Path}

/-- The places of loadable paths. -/
theorem exists_places (hn : paths.Nodup) (h : ∀ path ∈ paths, Loadable setting path) :
    ∃ places : List Location, paths = places.map .ofLocation ∧ places.Nodup ∧
      ∀ place ∈ places, setting.files.Direct place ∧
        ∃ text, setting.files.readText setting.here (.ofLocation place) = .ok text := by
  refine ⟨paths.map Path.parts, ?_, ?_, ?_⟩
  · rw [List.map_map]
    refine ((List.map_congr_left fun path hpath => ?_).trans (List.map_id paths)).symm
    obtain ⟨place, -, -, rfl, -⟩ := h path hpath
    rfl
  · refine List.Nodup.map_on (fun a ha b hb heq => ?_) hn
    obtain ⟨place, -, -, rfl, -⟩ := h a ha
    obtain ⟨place', -, -, rfl, -⟩ := h b hb
    exact congrArg Path.ofLocation heq
  · intro place hplace
    obtain ⟨path, hpath, rfl⟩ := List.mem_map.1 hplace
    obtain ⟨place, text, hdirect, rfl, htext⟩ := h path hpath
    exact ⟨hdirect, text, htext⟩

/-- There are no more loadable paths than places in the tree. -/
theorem length_le (hn : paths.Nodup) (h : ∀ path ∈ paths, Loadable setting path) :
    paths.length ≤ setting.files.entries.keys.length + 1 := by
  obtain ⟨places, rfl, hnodup, hplaces⟩ := exists_places hn h
  have hsub : places ⊆ [] :: setting.files.entries.keys := fun place hplace =>
    (hplaces place hplace).1.mem_keys
  rw [List.length_map]
  exact (List.Nodup.subperm hnodup hsub).length_le

/-- **There are no more loadable paths than files.** -/
theorem length_le_fileCount (hw : setting.files.WellNamed) (hn : paths.Nodup)
    (h : ∀ path ∈ paths, Loadable setting path) : paths.length ≤ setting.files.fileCount := by
  obtain ⟨places, rfl, hnodup, hplaces⟩ := exists_places hn h
  have hsub : places ⊆ (setting.files.entries.entries.filter
      fun e => e.2 matches .file _).map Prod.fst := by
    intro place hplace
    obtain ⟨hdirect, text, htext⟩ := hplaces place hplace
    obtain ⟨bytes, hmem⟩ := hdirect.exists_file hw htext
    exact List.mem_map.2 ⟨_, List.mem_filter.2 ⟨hmem, rfl⟩, rfl⟩
  rw [List.length_map, FileTree.fileCount, List.countP_eq_length_filter]
  have hlength := (List.Nodup.subperm hnodup hsub).length_le
  rwa [List.length_map] at hlength

end Loadable

end SmallLisp
